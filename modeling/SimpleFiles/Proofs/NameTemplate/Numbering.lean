import Mathlib.Data.List.Nodup
import SimpleFiles.Proofs.NameTemplate.Spelling

/-! The names that a template yields for a count. All of them are distinct, and there are as many
as are asked for; where a template does not yield so many, it yields none. -/
namespace SimpleFiles.NameTemplate

/-- A template without a dollar sign yields itself, at most once. One with an iterator yields a
name for each of its numbers, as long as these differ and neither they nor their distances from
the start are out of bounds. -/
inductive Yields (template : String) (count : Nat) : List String → Prop
  | plain (bare : '$' ∉ template.toList) (few : count ≤ 1) :
      Yields template count (List.replicate count template)
  | numbered {t : NameTemplate} (spelled : t.SpelledBy template)
      (moves : ¬(t.step = 0 ∧ count > 1))
      (fits : ∀ i : Nat, i < count → Fits (i * t.step) ∧ Fits (t.start + i * t.step)) :
      Yields template count
        ((List.range count).map fun i : Nat =>
          t.front ++ toString (t.start + i * t.step) ++ t.back)

theorem SpelledBy.fits_start {t : NameTemplate} {template : String} (h : t.SpelledBy template) :
    Fits t.start := by
  obtain ⟨bounds, spelled, -⟩ := h.spelled
  generalize t.start = start, t.step = step at spelled
  cases spelled with
  | none => exact ⟨by decide, by decide⟩
  | start _ fits => exact fits
  | both _ fits _ _ => exact fits

theorem SpelledBy.dollar_mem {t : NameTemplate} {template : String} (h : t.SpelledBy template) :
    '$' ∈ template.toList := by
  obtain ⟨bounds, -, whole⟩ := h.spelled
  rw [whole]
  simp

/-! Numbers. -/

theorem multiple_between {i k : Nat} (h : i ≤ k) (step : Int) :
    (0 ≤ i * step ∧ i * step ≤ k * step) ∨ (k * step ≤ i * step ∧ i * step ≤ 0) := by
  have later : (i : Int) ≤ k := Int.ofNat_le.mpr h
  rcases Int.le_total 0 step with up | down
  · exact .inl ⟨Int.mul_nonneg (Int.natCast_nonneg i) up, Int.mul_le_mul_of_nonneg_right later up⟩
  · exact .inr ⟨Int.mul_le_mul_of_nonpos_right later down,
      Int.mul_nonpos_of_nonneg_of_nonpos (Int.natCast_nonneg i) down⟩

theorem fits_iff_last (start step : Int) (count : Nat) (h : Fits start) :
    (∀ i : Nat, i < count → Fits (i * step) ∧ Fits (start + i * step)) ↔
      count = 0 ∨ Fits ((count - 1 : Nat) * step) ∧ Fits (start + (count - 1 : Nat) * step) := by
  constructor
  · intro fits
    rcases Nat.eq_zero_or_pos count with none | some
    · exact .inl none
    · exact .inr (fits (count - 1) (by omega))
  · rintro (rfl | ⟨far, last⟩) i hi
    · exact absurd hi (Nat.not_lt_zero i)
    · have between := multiple_between (Nat.le_sub_one_of_lt hi) step
      generalize (i : Int) * step = distance, ((count - 1 : Nat) : Int) * step = farthest at *
      unfold Fits at *
      omega

theorem admits_iff (t : NameTemplate) (count : Nat) (h : Fits t.start) :
    t.admits count = true ↔ ¬(t.step = 0 ∧ count > 1) ∧
      ∀ i : Nat, i < count → Fits (i * t.step) ∧ Fits (t.start + i * t.step) := by
  rw [fits_iff_last t.start t.step count h]
  simp [admits, number, holds64_iff, imp_iff_not_or]

/-! Names. -/

theorem names_eq_ok_iff (template : String) (count : Nat) (list : List String) :
    names template count = .ok list ↔ Yields template count list := by
  constructor
  · intro h
    unfold names at h
    split at h
    · split at h
      · cases h
      · rename_i t read
        split at h
        · rename_i admitted
          cases h
          have spelled := (read?_eq_some_iff template t).mp read
          obtain ⟨moves, fits⟩ := (admits_iff t count spelled.fits_start).mp admitted
          exact .numbered spelled moves fits
        · cases h
    · rename_i bare
      split at h
      · cases h
      · rename_i few
        cases h
        exact .plain bare (Nat.le_of_not_gt few)
  · intro h
    unfold names
    cases h with
    | plain bare few => rw [if_neg bare, if_neg (Nat.not_lt.mpr few)]
    | numbered spelled moves fits =>
      rw [if_pos spelled.dollar_mem, (read?_eq_some_iff template _).mpr spelled]
      exact if_pos ((admits_iff _ count spelled.fits_start).mpr ⟨moves, fits⟩)

theorem Yields.length_eq {template : String} {count : Nat} {list : List String}
    (h : Yields template count list) : list.length = count := by
  cases h with
  | plain => exact List.length_replicate
  | numbered => rw [List.length_map, List.length_range]

theorem Yields.nodup {template : String} {count : Nat} {list : List String}
    (h : Yields template count list) : list.Nodup := by
  cases h with
  | plain bare few => exact List.nodup_replicate.mpr few
  | @numbered t spelled moves fits =>
    refine List.Nodup.map_on ?_ List.nodup_range
    intro i hi j hj same
    rw [List.mem_range] at hi hj
    have numbers : t.start + i * t.step = t.start + j * t.step :=
      Text.eq_of_toString_eq ((String.append_right_inj _).mp ((String.append_left_inj _).mp same))
    by_cases still : t.step = 0
    · omega
    · exact Int.ofNat_inj.mp (Int.eq_of_mul_eq_mul_right still (Int.add_left_cancel numbers))

theorem names_error (template : String) (count : Nat) (e : NameError)
    (h : names template count = .error e) :
    e = if '$' ∈ template.toList then .invalidConstruct else .countWithoutConstruct := by
  unfold names at h
  split at h
  · rename_i dollar
    rw [if_pos dollar]
    split at h
    · exact (Except.error.inj h).symm
    · split at h
      · cases h
      · exact (Except.error.inj h).symm
  · rename_i bare
    rw [if_neg bare]
    split at h
    · exact (Except.error.inj h).symm
    · cases h

/-- Names are given exactly where the template yields as many as are asked for, and no two of them
are alike. In all other cases there are none: a template without a dollar sign lacks an iterator
for so many names, and one with it is not valid. -/
theorem names_exact (template : String) (count : Nat) :
    (∀ list, names template count = .ok list ↔ Yields template count list) ∧
    (∀ list, names template count = .ok list → list.length = count ∧ list.Nodup) ∧
    ∀ e, names template count = .error e ↔ (∀ list, ¬Yields template count list) ∧
      e = if '$' ∈ template.toList then .invalidConstruct else .countWithoutConstruct := by
  refine ⟨names_eq_ok_iff template count, ?_, ?_⟩
  · intro list done
    have yields := (names_eq_ok_iff template count list).mp done
    exact ⟨yields.length_eq, yields.nodup⟩
  · intro e
    constructor
    · intro fails
      refine ⟨fun list yields => ?_, names_error template count e fails⟩
      rw [(names_eq_ok_iff template count list).mpr yields] at fails
      cases fails
    · rintro ⟨none, rfl⟩
      cases done : names template count with
      | ok list => exact absurd ((names_eq_ok_iff template count list).mp done) (none list)
      | error e => rw [names_error template count e done]

example :
    names "n_$\x7bITERATOR:9223372036854775803:2\x7d.txt" 3 =
        .ok ["n_9223372036854775803.txt", "n_9223372036854775805.txt",
          "n_9223372036854775807.txt"] ∧
      names "n_$\x7bITERATOR:9223372036854775803:2\x7d.txt" 4 = .error .invalidConstruct := by
  decide +kernel

end SimpleFiles.NameTemplate
