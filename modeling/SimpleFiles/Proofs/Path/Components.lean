import SimpleFiles.Proofs.Path.Extending

/-! Paths compared by their components. What is left of a path after its base has the components
that come after those of the base, and a path that is put below another adds its own to those of
that one. -/
namespace SimpleFiles.Path

theorem exists_moving (p : Path) (bare : p.start.1 = none) (filled : p.components ≠ []) :
    ∃ s rest, p.segments = s :: rest ∧ isIdle s = false := by
  obtain ⟨segments⟩ := p
  match segments with
  | [] => exact absurd rfl filled
  | s :: rest =>
    rcases segment_cases s with rfl | rfl | moves
    · cases rest with
      | nil => exact absurd rfl filled
      | cons s' rest => cases bare
    · cases bare
    · exact ⟨s, rest, rfl, moves⟩

theorem start_of_steps (p : Path) (steps : ∀ c ∈ p.components, c.step?.isSome) :
    p.start.1 = none := by
  cases first : p.start.1 with
  | none => rfl
  | some c =>
    have step := steps c (by simp [components, first])
    unfold start at first
    split at first <;> cases first <;> cases step

theorem step?_of_components (p : Path) (first rest : List Component) (filled : first ≠ [])
    (split : p.components = first ++ rest) : ∀ c ∈ rest, c.step?.isSome := by
  intro c hc
  have later : c ∈ p.start.2.filterMap component? := by
    obtain ⟨c', more, rfl⟩ := List.exists_cons_of_ne_nil filled
    rw [components] at split
    cases start : p.start.1 with
    | none =>
      rw [start, Option.toList_none, List.nil_append] at split
      rw [split]
      exact List.mem_append_right _ hc
    | some c'' =>
      rw [start, Option.toList_some, List.singleton_append, List.cons_append] at split
      rw [(List.cons.inj split).2]
      exact List.mem_append_right _ hc
  rw [filterMap_component?_eq] at later
  obtain ⟨s, -, rfl⟩ := List.mem_map.mp later
  unfold stepComponent
  split <;> rfl

theorem components_cons (s : String) (rest : List String) (moves : isIdle s = false) :
    components ⟨s :: rest⟩ = (s :: rest).filterMap component? :=
  components_of_moving [] rest s moves

theorem components_join (p q : Path) (steps : ∀ c ∈ q.components, c.step?.isSome)
    (filled : q.components ≠ []) : (p.join q).components = p.components ++ q.components := by
  obtain ⟨s, rest, split, moves⟩ := q.exists_moving (q.start_of_steps steps) filled
  obtain ⟨segments⟩ := q
  obtain rfl : segments = s :: rest := split
  rcases p.join_cases ⟨s :: rest⟩ with ⟨absolute, -⟩ | ⟨-, joined⟩
  · rw [isAbsolute_of_moving s rest moves] at absolute
    cases absolute
  · rw [joined, components_of_moving p.folder rest s moves, ← p.components_eq_ancestors,
      components_cons s rest moves]

theorem components_ofStart (p : Path) :
    (ofStart p.start.1 (dropIdleRight p.start.2)).components = p.components := by
  obtain ⟨segments⟩ := p
  by_cases empty : segments = [""]
  · rw [empty]
    rfl
  · rw [start_eq_lead segments empty, components_eq_ancestors, folder_ofStart,
      ancestors_trimmedFront, components, start_eq_lead segments empty, ancestors]

theorem components_trimmed (segments : List String) :
    (ofStart none (dropIdleRight (dropIdle segments))).components =
      segments.filterMap component? := by
  rcases ofStart_trimmed_cases segments with
    ⟨nothing, empty⟩ | ⟨-, s, rest, moves, same, spelled, -⟩
  · rw [empty, filterMap_component?_eq, nothing]
    rfl
  · rw [spelled, components_cons s rest moves, filterMap_component?_eq,
      filterMap_component?_eq segments, same]

theorem filterMap_dropComponents (n : Nat) (segments : List String) :
    (dropComponents n segments).filterMap component? =
      (segments.filterMap component?).drop n := by
  rw [filterMap_component?_eq, steps_dropComponents, filterMap_component?_eq, List.map_drop]

theorem exists_relativeTo? (p base : Path) (rest : List Component)
    (split : p.components = base.components ++ rest) :
    ∃ relative, p.relativeTo? base = some relative ∧ relative.components = rest := by
  have within : base.components.isPrefixOf p.components = true := by
    rw [List.isPrefixOf_iff_prefix, split]
    exact List.prefix_append ..
  simp only [relativeTo?, within, if_true]
  by_cases none : base.components.length = 0
  · rw [if_pos none]
    refine ⟨_, rfl, ?_⟩
    rw [components_ofStart, split, List.eq_nil_of_length_eq_zero none, List.nil_append]
  · rw [if_neg none]
    refine ⟨_, rfl, ?_⟩
    have start : p.start.1.toList.length ≤ base.components.length := by
      cases p.start.1 with
      | none => exact Nat.zero_le _
      | some c => exact Nat.pos_of_ne_zero none
    calc (ofStart Option.none (dropIdleRight (dropIdle
            (dropComponents (base.components.length - p.start.1.toList.length)
              p.start.2)))).components
        = (p.start.2.filterMap component?).drop
            (base.components.length - p.start.1.toList.length) := by
          rw [components_trimmed, filterMap_dropComponents]
      _ = p.components.drop base.components.length := by
          rw [components.eq_def p, List.drop_append, List.drop_eq_nil_of_le start, List.nil_append]
      _ = rest := by rw [split, List.drop_left]

theorem components_of_relativeTo? (p base relative : Path)
    (found : p.relativeTo? base = some relative) :
    p.components = base.components ++ relative.components := by
  have within : base.components.isPrefixOf p.components = true := by
    by_contra apart
    rw [relativeTo?, if_neg apart] at found
    cases found
  obtain ⟨rest, split⟩ := List.isPrefixOf_iff_prefix.mp within
  obtain ⟨relative', found', rfl⟩ := p.exists_relativeTo? base rest split.symm
  rw [Option.some.inj (found.symm.trans found'), split]

theorem components_eq_nil_iff (p : Path) : p.components = [] ↔ p.text = "" := by
  constructor
  · intro none
    by_contra filled
    rw [components_eq_ancestors] at none
    exact ancestors_ne_nil _ (p.folder_ne_nil filled) none
  · intro empty
    obtain ⟨segments⟩ := p
    rcases (text_eq_empty_iff ⟨segments⟩).mp empty with rfl | rfl <;> rfl

/-- A path has the components of a base and then names. -/
structure LiesUnder (p base : Path) (names : List String) : Prop where
  filled : names ≠ []
  components : p.components = base.components ++ names.map .normal

instance (p base : Path) (names : List String) : Decidable (p.LiesUnder base names) :=
  decidable_of_iff (names ≠ [] ∧ p.components = base.components ++ names.map .normal)
    ⟨fun ⟨filled, components⟩ => ⟨filled, components⟩, fun h => ⟨h.filled, h.components⟩⟩

theorem liesUnder_below (base : Path) (names : List String) (filled : names ≠ [])
    (named : ∀ s ∈ names, IsEntryName s) : (base.below names).LiesUnder base names := by
  refine ⟨filled, ?_⟩
  rw [base.below_eq names filled named, components_below _ names filled named,
    ← base.components_eq_ancestors]

namespace LiesUnder

variable {p q base : Path} {names others : List String}

theorem fileName? (h : p.LiesUnder base names) : p.fileName? = names.getLast? := by
  obtain ⟨init, name, rfl⟩ := (List.eq_nil_or_concat' names).resolve_left h.filled
  rw [Path.fileName?, h.components, List.map_append, ← List.append_assoc, List.map_cons,
    List.map_nil, List.getLast?_concat, List.getLast?_concat]

theorem same_iff (h : p.LiesUnder base names) (h' : q.LiesUnder base others) :
    p.same q = true ↔ names = others := by
  have injective : Function.Injective Component.normal := fun a b same => by cases same; rfl
  rw [same, beq_iff_eq, h.components, h'.components, List.append_cancel_left_eq,
    List.map_inj_right injective]

end LiesUnder

end SimpleFiles.Path
