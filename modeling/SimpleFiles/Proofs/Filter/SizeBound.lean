import SimpleFiles.Filter.SizeBound
import SimpleFiles.Proofs.Text.Integer

/-! Bounds on sizes as they are written: which texts give one, and which sizes it admits. A number of
kilobytes whose bytes no word holds gives none; it does not wrap. -/
namespace SimpleFiles.SizeBound

/-- Without the blanks around it, the text is a number of kilobytes, and a word holds their bytes. -/
structure Measures (size : String) (kilobytes : Nat) : Prop where
  written : Text.IsNatural (Text.trim size).toList kilobytes
  fits : 1024 * kilobytes ≤ 2 ^ 64 - 1

inductive Bounds (bytes : Nat) : String → SizeBound → Prop
  | greater : Bounds bytes "GT" (.atLeast bytes)
  | less : Bounds bytes "LT" (.atMost bytes)

theorem bytes?_eq_some_iff (size : String) (bytes : Nat) :
    bytes? size = some bytes ↔ ∃ k, Measures size k ∧ bytes = 1024 * k := by
  rw [bytes?, Option.filter_eq_some_iff, Option.map_eq_some_iff, decide_eq_true_eq, Word.count64]
  constructor
  · rintro ⟨⟨k, read, rfl⟩, fits⟩
    obtain ⟨written, -⟩ := (Text.word64?_eq_some_iff _ k).mp read
    exact ⟨k, ⟨written, by omega⟩, rfl⟩
  · rintro ⟨k, ⟨written, fits⟩, rfl⟩
    have read := (Text.word64?_eq_some_iff (Text.trim size) k).mpr ⟨written, by omega⟩
    exact ⟨⟨k, read, rfl⟩, by omega⟩

theorem bytes?_eq_none_iff (size : String) : bytes? size = none ↔ ∀ k, ¬Measures size k := by
  rw [Option.eq_none_iff_forall_ne_some]
  constructor
  · exact fun none k measures => none _ ((bytes?_eq_some_iff size _).mpr ⟨k, measures, rfl⟩)
  · intro unmeasured bytes read
    obtain ⟨k, measures, -⟩ := (bytes?_eq_some_iff size bytes).mp read
    exact unmeasured k measures

variable {size comparator : String} {k : Nat}

theorem read_of_unmeasured (h : ∀ k, ¬Measures size k) :
    read (some size) (some comparator) = .error .invalidSize := by
  simp only [read, (bytes?_eq_none_iff size).mpr h]

theorem read_of_measures (h : Measures size k) :
    read (some size) (some comparator) =
      if comparator = "GT" then .ok (some (.atLeast (1024 * k)))
      else if comparator = "LT" then .ok (some (.atMost (1024 * k)))
      else .error (.unknownComparator comparator) := by
  simp only [read, (bytes?_eq_some_iff size _).mpr ⟨k, h, rfl⟩]

theorem read_of_bounds (h : Measures size k) {bound : SizeBound}
    (bounds : Bounds (1024 * k) comparator bound) :
    read (some size) (some comparator) = .ok (some bound) := by
  rw [read_of_measures h]
  cases bounds <;> rfl

theorem read_of_unknown (h : Measures size k) (unknown : comparator ∉ ["GT", "LT"]) :
    read (some size) (some comparator) = .error (.unknownComparator comparator) := by
  obtain ⟨notGreater, notLess⟩ : comparator ≠ "GT" ∧ comparator ≠ "LT" := by simpa using unknown
  rw [read_of_measures h, if_neg notGreater, if_neg notLess]

theorem read_cases (size comparator : String) :
    (∀ k, ¬Measures size k) ∨ ∃ k, Measures size k ∧
      ((∃ bound, Bounds (1024 * k) comparator bound) ∨ comparator ∉ ["GT", "LT"]) := by
  by_cases unmeasured : ∀ k, ¬Measures size k
  · exact .inl unmeasured
  · obtain ⟨k, measures⟩ := not_forall_not.mp unmeasured
    refine .inr ⟨k, measures, ?_⟩
    by_cases greater : comparator = "GT"
    · subst greater
      exact .inl ⟨_, .greater⟩
    by_cases less : comparator = "LT"
    · subst less
      exact .inl ⟨_, .less⟩
    · exact .inr (by simp [greater, less])

theorem read_eq_ok_iff (bound : SizeBound) :
    read (some size) (some comparator) = .ok (some bound) ↔
      ∃ k, Measures size k ∧ Bounds (1024 * k) comparator bound := by
  constructor
  · intro done
    rcases read_cases size comparator with
      unmeasured | ⟨k, measures, ⟨other, bounds⟩ | unknown⟩
    · rw [read_of_unmeasured unmeasured] at done
      cases done
    · rw [read_of_bounds measures bounds] at done
      cases done
      exact ⟨k, measures, bounds⟩
    · rw [read_of_unknown measures unknown] at done
      cases done
  · rintro ⟨k, measures, bounds⟩
    exact read_of_bounds measures bounds

theorem read_eq_invalidSize_iff :
    read (some size) (some comparator) = .error .invalidSize ↔ ∀ k, ¬Measures size k := by
  refine ⟨fun failed => ?_, read_of_unmeasured⟩
  rcases read_cases size comparator with unmeasured | ⟨k, measures, ⟨bound, bounds⟩ | unknown⟩
  · exact unmeasured
  · rw [read_of_bounds measures bounds] at failed
    cases failed
  · rw [read_of_unknown measures unknown] at failed
    cases failed

theorem read_eq_unknownComparator_iff (word : String) :
    read (some size) (some comparator) = .error (.unknownComparator word) ↔
      word = comparator ∧ comparator ∉ ["GT", "LT"] ∧ ∃ k, Measures size k := by
  constructor
  · intro failed
    rcases read_cases size comparator with
      unmeasured | ⟨k, measures, ⟨bound, bounds⟩ | unknown⟩
    · rw [read_of_unmeasured unmeasured] at failed
      cases failed
    · rw [read_of_bounds measures bounds] at failed
      cases failed
    · rw [read_of_unknown measures unknown] at failed
      cases failed
      exact ⟨rfl, unknown, k, measures⟩
  · rintro ⟨rfl, unknown, k, measures⟩
    exact read_of_unknown measures unknown

theorem admits_atLeast_iff (bytes n : Nat) : (atLeast bytes).admits n = true ↔ bytes ≤ n := by
  simp [admits]

theorem admits_atMost_iff (bytes n : Nat) : (atMost bytes).admits n = true ↔ n ≤ bytes := by
  simp [admits]

/-- A bound is read exactly from a number of kilobytes whose bytes a word holds and one of the two
comparators; it lies at just so many bytes. Any other size is refused first, whatever the comparator,
and then any other comparator. What the two bounds of one size admit is everything together, and both
admit nothing but the bound itself. -/
theorem read_never_wraps (size comparator : String) :
    (∀ bound, read (some size) (some comparator) = .ok (some bound) ↔
      ∃ k, Measures size k ∧ Bounds (1024 * k) comparator bound) ∧
    (read (some size) (some comparator) = .error .invalidSize ↔ ∀ k, ¬Measures size k) ∧
    (∀ word, read (some size) (some comparator) = .error (.unknownComparator word) ↔
      word = comparator ∧ comparator ∉ ["GT", "LT"] ∧ ∃ k, Measures size k) ∧
    ∀ k, Measures size k → ∃ low high, read (some size) (some "GT") = .ok (some low) ∧
      read (some size) (some "LT") = .ok (some high) ∧ ∀ n,
        (low.admits n = true ↔ 1024 * k ≤ n) ∧ (high.admits n = true ↔ n ≤ 1024 * k) ∧
        (low.admits n = true ∨ high.admits n = true) ∧
        (low.admits n = true ∧ high.admits n = true ↔ n = 1024 * k) := by
  refine ⟨read_eq_ok_iff, read_eq_invalidSize_iff, read_eq_unknownComparator_iff, ?_⟩
  intro k measures
  refine ⟨_, _, read_of_bounds measures .greater, read_of_bounds measures .less, fun n => ?_⟩
  rw [admits_atLeast_iff, admits_atMost_iff]
  omega

example : read (some "\t+18014398509481983 ") (some "LT") =
      .ok (some (.atMost (2 ^ 64 - 1024))) ∧
    read (some "18014398509481984") (some "around") = .error .invalidSize := by
  decide +kernel

end SimpleFiles.SizeBound
