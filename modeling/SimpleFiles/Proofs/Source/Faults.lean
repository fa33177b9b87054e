import SimpleFiles.Proofs.Source.Building

/-! The faults of a text. A program fails to be built from the tree of its text because
of the first condition that declares another action than its own, and for no other
reason; a text that does not follow the grammar has no tree. -/
namespace SimpleFiles.Source

theorem firstMisdeclared_cons_iff (t : Tree) (nodes : List Tree) (what : Misdeclared) :
    FirstMisdeclared (t :: nodes) what ↔
      t.Misdeclares what ∨ (∀ other, ¬t.Misdeclares other) ∧ FirstMisdeclared nodes what := by
  constructor
  · rintro ⟨before, u, after, hsplit, hbefore, hu⟩
    cases before with
    | nil =>
      cases hsplit
      exact .inl hu
    | cons v before =>
      cases hsplit
      rw [List.forall_mem_cons] at hbefore
      exact .inr ⟨hbefore.1, before, u, after, rfl, hbefore.2, hu⟩
  · rintro (ht | ⟨hnone, before, u, after, rfl, hbefore, hu⟩)
    · exact ⟨[], t, nodes, rfl, nofun, ht⟩
    · exact ⟨t :: before, u, after, rfl, List.forall_mem_cons.2 ⟨hnone, hbefore⟩, hu⟩

theorem exists_firstMisdeclared_iff (nodes : List Tree) :
    (∃ what, FirstMisdeclared nodes what) ↔ ∃ t ∈ nodes, ∃ what, t.Misdeclares what := by
  constructor
  · rintro ⟨what, before, t, after, rfl, -, ht⟩
    exact ⟨t, by simp, what, ht⟩
  · intro h
    induction nodes with
    | nil => simp at h
    | cons t nodes ih =>
      simp only [firstMisdeclared_cons_iff]
      by_cases ht : ∃ what, t.Misdeclares what
      · exact ht.imp fun _ => .inl
      · obtain ⟨u, hu, hwhat⟩ := h
        rcases List.mem_cons.1 hu with rfl | hu
        · exact absurd hwhat ht
        · exact (ih ⟨u, hu, hwhat⟩).imp fun _ hfirst => .inr ⟨not_exists.1 ht, hfirst⟩

theorem not_misdeclares_of_not_isItem {t : Tree} (h : t.isItem = false) (what : Misdeclared) :
    ¬t.Misdeclares what := by
  rintro ⟨htag, -⟩
  simp [Tree.isItem, htag, Tag.isKeyword] at h

theorem firstMisdeclared_iff {nodes others : List Tree} {items : List (Except Misdeclared Statement)}
    (hnodes : List.Forall₂ ItemNode nodes items) (hothers : ∀ t ∈ others, t.isItem = false)
    (what : Misdeclared) :
    FirstMisdeclared (nodes ++ others) what ↔ items.mapM id = .error what := by
  induction hnodes with
  | nil =>
    refine iff_of_false ?_ nofun
    rintro ⟨before, t, after, rfl, -, ht⟩
    exact not_misdeclares_of_not_isItem (hothers t (by simp)) what ht
  | @cons t item nodes items hnode _ ih =>
    rw [List.cons_append, firstMisdeclared_cons_iff, ih, List.mapM_cons]
    cases item with
    | error first => simp [hnode.misdeclares, bind, Except.bind]
    | ok s =>
      simp only [hnode.misdeclares]
      cases items.mapM id <;> simp [bind, Except.bind, pure, Except.pure]

theorem ProgramNode.firstMisdeclared_iff {t : Tree} {items : List (Except Misdeclared Statement)}
    {span : Span} (h : ProgramNode t items span) (what : Misdeclared) :
    FirstMisdeclared t.inner what ↔ items.mapM id = .error what := by
  obtain ⟨-, first, nodes, last, stop, hinner, hnodes, hothers⟩ := h
  simp only [List.forall_mem_cons] at hothers
  rw [hinner, firstMisdeclared_cons_iff, Source.firstMisdeclared_iff hnodes (by simp [hothers])]
  simp [not_misdeclares_of_not_isItem hothers.1]

theorem message_of_parse_eq_error {source : String} {fault : Fault}
    (refused : parse source = .error fault) :
    ∃ staged, parseStaged source = .error staged ∧ staged.message = fault.message ∧
      staged.span? = some fault.span := by
  refine ⟨fault.staged, ?_, ?_⟩
  · rw [parseStaged_eq, refused]
    rfl
  · cases fault <;> exact ⟨rfl, rfl⟩

/-! Where a fault is. -/

namespace Tree

variable {source : String} {t u : Tree}

theorem CutFrom.cut (h : t.CutFrom source) :
    slice source t.span = t.text ∧ IsPlaced source t.span := by
  cases h with
  | node slice_eq placed parts => exact ⟨slice_eq, placed⟩

theorem CutFrom.of_mem (h : t.CutFrom source) (hu : u ∈ t.inner) : u.CutFrom source := by
  cases h with
  | node slice_eq placed parts => exact parts u hu

theorem CutFrom.of_misdeclares {what : Misdeclared} (h : t.CutFrom source)
    (ht : t.Misdeclares what) :
    slice source what.span = what.action ∧ IsPlaced source what.span := by
  obtain ⟨-, name, action, -, haction, -, rfl⟩ := ht
  exact (h.of_mem (List.mem_of_find?_eq_some haction)).cut

end Tree

/-- A text that follows the grammar fails to be built if and only if one of its conditions declares
another action than its own; the fault names the first of these and its action, and its span cuts
that action out of the text. No part is ever missing from a tree, and a text without a tree is
refused as unexpected. -/
theorem parseStaged_unbuilt_iff (source : String) :
    parseStaged source = (parse source).mapError Fault.staged ∧
    ((∃ what, parseStaged source = .error (.unexpected source what)) ↔ treesOf source = none) ∧
    ((∃ why, parseStaged source = .error (.unbuilt why)) ↔
      ∃ program, treesOf source = some [program] ∧ ∃ t ∈ program.inner, ∃ what, t.Misdeclares what) ∧
    ∀ why, parseStaged source = .error (.unbuilt why) → ∃ program what,
      treesOf source = some [program] ∧ FirstMisdeclared program.inner what ∧
        why = .misdeclared what ∧ slice source what.span = what.action ∧
          IsPlaced source what.span := by
  refine ⟨parseStaged_eq source, ?_⟩
  rcases treesOf_cases source with ⟨htrees, -⟩ | ⟨program, items, next, htrees, -, hnode, hcut⟩
  · have hstaged : parseStaged source = .error (.unexpected source (unexpected source)) := by
      rw [parseStaged, htrees]
    simp [hstaged, htrees]
  · have hstaged : parseStaged source = ((items.mapM id).mapError fun what =>
        .unbuilt (.misdeclared what)).map fun statements =>
          ⟨statements, Position.spanTo {} next.position⟩ := by
      rw [parseStaged, htrees]
      simp only [hnode.built]
      cases items.mapM id <;> rfl
    have hunbuilt (why : BuildFault) : parseStaged source = .error (.unbuilt why) ↔
        ∃ what, FirstMisdeclared program.inner what ∧ why = .misdeclared what := by
      simp only [hnode.firstMisdeclared_iff, hstaged]
      cases items.mapM id with
      | error first => simp [Except.mapError, Except.map, eq_comm]
      | ok statements => simp [Except.mapError, Except.map]
    refine ⟨?_, ?_, fun why hwhy => ?_⟩
    · refine iff_of_false ?_ (by simp [htrees])
      rintro ⟨what, hwhat⟩
      rw [hstaged] at hwhat
      cases h : items.mapM id <;> simp [h, Except.mapError, Except.map] at hwhat
    · have hexists : (∃ why, parseStaged source = .error (.unbuilt why)) ↔
          ∃ what, FirstMisdeclared program.inner what := by
        simp only [hunbuilt]
        constructor
        · rintro ⟨_, what, hfirst, -⟩
          exact ⟨what, hfirst⟩
        · rintro ⟨what, hfirst⟩
          exact ⟨_, what, hfirst, rfl⟩
      rw [hexists, exists_firstMisdeclared_iff, htrees]
      simp
    · obtain ⟨what, hfirst, rfl⟩ := (hunbuilt why).1 hwhy
      obtain ⟨before, t, after, hsplit, hbefore, ht⟩ := hfirst
      have hmem : t ∈ program.inner := by simp [hsplit]
      exact ⟨program, what, htrees, ⟨before, t, after, hsplit, hbefore, ht⟩, rfl,
        (hcut.of_mem hmem).of_misdeclares ht⟩

example : parseStaged "BEGIN INST a -> :group; COND b -> :rename; COND c -> :x; END" =
    .error (.unbuilt (.misdeclared ⟨"b", ":rename", ⟨34, 41, 0, 34, 0, 41⟩⟩)) := by
  decide +kernel

end SimpleFiles.Source
