import SimpleFiles.Proofs.Path.Extending

/-! What is left of a path after its base: a way down from one name to another, which leads back
to itself when it is put below any other base. -/
namespace SimpleFiles.Path

theorem fileName?_eq (p : Path) :
    p.fileName? = (steps p.segments).getLast?.filter (· ≠ "..") := by
  have start : ∀ name, p.start.1 ≠ some (.normal name) := by
    intro name
    unfold start
    split <;> exact nofun
  rw [fileName?, components, filterMap_component?_eq, steps_start]
  rcases List.eq_nil_or_concat' (steps p.segments) with none | ⟨init, s, ends⟩
  · rw [none]
    cases first : p.start.1 with
    | none => rfl
    | some c =>
      cases c with
      | normal name => exact absurd first (start name)
      | root => rfl
      | current => rfl
      | parent => rfl
  · rw [ends, List.map_append, ← List.append_assoc, List.map_cons, List.map_nil,
      List.getLast?_concat, List.getLast?_concat, stepComponent]
    by_cases up : s = ".."
    · simp [up, Option.filter]
    · simp [up, Option.filter]

theorem ofText_text (p : Path) (plain : p.IsPlain) (filled : p.segments ≠ []) :
    ofText p.text = p := by
  obtain ⟨segments⟩ := p
  have apart : ∀ l ∈ segments.map String.toList, '/' ∉ l := by
    intro l hl
    obtain ⟨s, hs, rfl⟩ := List.mem_map.mp hl
    exact plain s hs
  have split := List.splitOn_intercalate '/' apart (by simpa using filled)
  have slash : "/".toList = ['/'] := by decide
  unfold ofText text
  rw [String.toList_intercalate, slash, split, List.map_map,
    show String.ofList ∘ String.toList = id from funext fun s => String.ofList_toList, List.map_id]

structure IsTrail (p : Path) : Prop where
  plain : p.IsPlain
  down : ".." ∉ p.segments
  starts : ∃ s rest, p.segments = s :: rest ∧ isIdle s = false
  ends : ∀ s ∈ p.segments.getLast?, isIdle s = false

namespace IsTrail

variable {p : Path}

theorem name (name : String) (noSlash : '/' ∉ name.toList) (moves : isIdle name = false)
    (notUp : name ≠ "..") : IsTrail ⟨[name]⟩ := by
  refine ⟨?_, ?_, ⟨name, [], rfl, moves⟩, ?_⟩
  · simpa [IsPlain] using noSlash
  · simpa using notUp.symm
  · simpa using moves

theorem isInner (h : p.IsTrail) : p.IsInner := by
  obtain ⟨s, rest, split, moves⟩ := h.starts
  refine ⟨?_, h.down⟩
  rw [show p = ⟨s :: rest⟩ by rw [← split]]
  exact isAbsolute_of_moving s rest moves

theorem segments_ne_nil (h : p.IsTrail) : p.segments ≠ [] := by
  obtain ⟨s, rest, split, -⟩ := h.starts
  rw [split]
  exact List.cons_ne_nil _ _

theorem text_ne_empty (h : p.IsTrail) : p.text ≠ "" := by
  obtain ⟨s, rest, split, moves⟩ := h.starts
  rw [Ne, text_eq_empty_iff, split]
  rintro (none | empty)
  · cases none
  · rw [(List.cons.inj empty).1] at moves
    cases moves

theorem steps_ne_nil (h : p.IsTrail) : steps p.segments ≠ [] := by
  obtain ⟨s, rest, split, moves⟩ := h.starts
  rw [split, steps_cons_of_moving s rest moves]
  exact List.cons_ne_nil _ _

theorem endsInName (h : p.IsTrail) : p.EndsInName := by
  obtain ⟨front, name, split⟩ := (List.eq_nil_or_concat' p.segments).resolve_left h.segments_ne_nil
  refine ⟨front, name, split, h.ends name (by simp [split]), ?_⟩
  rintro rfl
  exact h.down (by simp [split])

theorem trimmed (h : p.IsTrail) : ofStart none (dropIdleRight (dropIdle p.segments)) = p := by
  obtain ⟨s, rest, split, moves⟩ := h.starts
  have kept : dropIdle p.segments = p.segments := by
    rw [split, dropIdle, List.dropWhile_cons_of_neg (by simp [moves])]
  have keptRight : dropIdleRight p.segments = p.segments := by
    obtain ⟨front, name, ends, last, -⟩ := h.endsInName
    rw [ends, dropIdleRight, List.reverse_concat, List.dropWhile_cons_of_neg (by simp [last]),
      ← List.reverse_concat, List.reverse_reverse]
  rw [kept, keptRight]
  obtain ⟨segments⟩ := p
  obtain rfl : segments = s :: rest := split
  rfl

theorem relativeTo?_join (h : p.IsTrail) (output : Path) (absolute : output.isAbsolute = true) :
    (output.join p).relativeTo? output = some p := by
  have joined : output.join p = ⟨output.folder ++ p.segments⟩ := by
    rcases output.join_cases p with ⟨other, -⟩ | ⟨-, joined⟩
    · rw [h.isInner.relative] at other
      cases other
    · exact joined
  have filled := output.text_ne_empty_of_isAbsolute absolute
  obtain ⟨s, rest, split, moves⟩ := h.starts
  rw [joined, split, output.relativeTo?_of_moving rest s filled moves, ← split, h.trimmed]

end IsTrail

theorem isTrail_trimmed (segments : List String) (plain : ∀ s ∈ segments, '/' ∉ s.toList)
    (down : ".." ∉ segments) :
    let left := ofStart none (dropIdleRight (dropIdle segments))
    left = empty ∨ left.IsTrail ∧ steps left.segments = steps segments := by
  rcases ofStart_trimmed_cases segments with
    ⟨-, none⟩ | ⟨-, s, rest, moves, same, spelled, inside⟩
  · exact .inl none
  · refine .inr ?_
    have kept : dropIdleRight (dropIdle segments) = s :: rest := by
      cases hk : dropIdleRight (dropIdle segments) with
      | nil =>
        rw [hk] at spelled
        rw [← (List.cons.inj (Path.mk.inj spelled)).1] at moves
        cases moves
      | cons x more =>
        rw [hk] at spelled
        exact Path.mk.inj spelled
    rw [spelled]
    refine ⟨⟨fun x hx => plain x (inside x hx), fun up => down (inside _ up), ⟨s, rest, rfl, moves⟩,
      ?_⟩, same⟩
    intro x hx
    exact isIdle_of_getLast?_dropIdleRight (dropIdle segments) x (by rw [kept]; exact hx)

theorem isTrail_relativeTo? (p base relative : Path) (plain : p.IsPlain) (down : ".." ∉ p.segments)
    (filled : base.components ≠ []) (found : p.relativeTo? base = some relative) :
    relative = empty ∨
      relative.IsTrail ∧ (steps relative.segments).getLast? = (steps p.segments).getLast? := by
  unfold relativeTo? at found
  split at found
  · simp only [List.length_eq_zero_iff, if_neg filled, Option.some.injEq] at found
    generalize hn : base.components.length - p.start.1.toList.length = n at found
    have inside := mem_of_mem_dropComponents n p.start.2
    rcases isTrail_trimmed (dropComponents n p.start.2)
      (fun s hs => plain s (p.mem_of_mem_start s (inside s hs)))
      (fun up => down (p.mem_of_mem_start _ (inside _ up))) with none | ⟨trail, same⟩
    · exact .inl (found ▸ none)
    · rw [found] at trail same
      refine .inr ⟨trail, ?_⟩
      have filled := trail.steps_ne_nil
      rw [same, steps_dropComponents, steps_start] at filled ⊢
      rw [List.getLast?_drop, if_neg]
      intro short
      exact filled (List.drop_eq_nil_iff.mpr short)
  · cases found

end SimpleFiles.Path
