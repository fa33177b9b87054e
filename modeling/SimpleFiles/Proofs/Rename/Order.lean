import SimpleFiles.Execution.Rename

/-! The order in which entries are renamed: the deepest first, and those of one depth
as they were found. -/
namespace SimpleFiles.Rename

/-- One path is renamed before the other when they are found in the order of their segments. -/
def Earlier (p q : Path) : Prop := q.depth < p.depth ∨ q.depth = p.depth ∧ p.segments < q.segments

def Before (l m : Location) : Prop := m.length < l.length ∨ m.length = l.length ∧ l < m

theorem Before.not_above {l m : Location} (h : Before l m) : ¬ l <+: m := by
  intro above
  rcases h with deeper | ⟨level, less⟩
  · exact absurd above.length_le (Nat.not_le_of_lt deeper)
  · exact List.lt_irrefl _ (above.eq_of_length level.symm ▸ less)

theorem Before.asymm (l m : Location) (h : Before l m) : ¬ Before m l := by
  intro back
  rcases h with deeper | ⟨level, less⟩
  · rcases back with deeper' | ⟨level', -⟩
    · omega
    · omega
  · rcases back with deeper' | ⟨-, less'⟩
    · omega
    · exact List.lt_asymm less less'

theorem placeDeepest_perm (p : Path) (paths : List Path) :
    (placeDeepest p paths).Perm (p :: paths) := by
  induction paths with
  | nil => exact .refl _
  | cons q rest ih =>
    rw [placeDeepest]
    split
    · exact .refl _
    · exact (ih.cons q).trans (.swap p q rest)

theorem deepestFirst_perm (paths : List Path) : (deepestFirst paths).Perm paths := by
  induction paths with
  | nil => exact .refl _
  | cons p rest ih => exact (placeDeepest_perm p (deepestFirst rest)).trans (ih.cons p)

section
variable {order : Path → Path → Prop} (deeper : ∀ p q : Path, q.depth < p.depth → order p q)
  (within : ∀ p q, order p q → q.depth ≤ p.depth)

include deeper within in
/-- An order in which the deeper path comes first is kept, if it puts a path before those of the
list that are as deep. -/
theorem placeDeepest_pairwise (p : Path) (paths : List Path) (sorted : paths.Pairwise order)
    (level : ∀ q ∈ paths, q.depth = p.depth → order p q) : (placeDeepest p paths).Pairwise order := by
  induction paths with
  | nil => exact List.pairwise_singleton _ _
  | cons q rest ih =>
    obtain ⟨first, later⟩ := List.pairwise_cons.mp sorted
    rw [placeDeepest]
    split
    · rename_i shallow
      refine List.pairwise_cons.mpr ⟨?_, sorted⟩
      intro r hr
      have depth : r.depth ≤ p.depth := by
        rcases List.mem_cons.mp hr with rfl | hr
        · exact shallow
        · exact Nat.le_trans (within q r (first r hr)) shallow
      rcases Nat.lt_or_eq_of_le depth with less | equal
      · exact deeper p r less
      · exact level r hr equal
    · rename_i deep
      refine List.pairwise_cons.mpr ⟨?_, ih later fun r hr => level r (List.mem_cons_of_mem _ hr)⟩
      intro r hr
      rcases List.mem_cons.mp ((placeDeepest_perm p rest).mem_iff.mp hr) with rfl | hr
      · exact deeper q r (Nat.lt_of_not_le deep)
      · exact first r hr

end

theorem deepestFirst_pairwise (paths : List Path)
    (found : paths.Pairwise fun p q => p.segments < q.segments) :
    (deepestFirst paths).Pairwise Earlier := by
  have within : ∀ p q, Earlier p q → q.depth ≤ p.depth := by
    rintro p q (less | ⟨equal, -⟩)
    · exact Nat.le_of_lt less
    · exact Nat.le_of_eq equal
  induction paths with
  | nil => exact .nil
  | cons p rest ih =>
    obtain ⟨first, later⟩ := List.pairwise_cons.mp found
    apply placeDeepest_pairwise (fun _ _ less => .inl less) within p (deepestFirst rest) (ih later)
    intro q hq equal
    exact .inr ⟨equal, first q ((deepestFirst_perm rest).mem_iff.mp hq)⟩

theorem deepestFirst_deepest (paths : List Path) :
    (deepestFirst paths).Pairwise fun p q => q.depth ≤ p.depth := by
  induction paths with
  | nil => exact .nil
  | cons p rest ih =>
    exact placeDeepest_pairwise (fun _ _ less => Nat.le_of_lt less) (fun _ _ order => order) p _ ih
      fun _ _ equal => Nat.le_of_eq equal

/-- A relation that an ordered list keeps from front to back holds whenever one of its
elements comes before another. -/
theorem pairwise_iff_forall_earlier {α : Type} (earlier related : α → α → Prop)
    (asymm : ∀ a b, earlier a b → ¬ earlier b a) (list : List α)
    (sorted : list.Pairwise earlier) :
    list.Pairwise related ↔ ∀ a ∈ list, ∀ b ∈ list, earlier a b → related a b := by
  induction list with
  | nil => simp
  | cons a rest ih =>
    obtain ⟨first, sortedRest⟩ := List.pairwise_cons.mp sorted
    rw [List.pairwise_cons, ih sortedRest]
    constructor
    · rintro ⟨here, there⟩ b hb c hc order
      rcases List.mem_cons.mp hb with rfl | later
      · rcases List.mem_cons.mp hc with rfl | later
        · exact absurd order (asymm _ _ order)
        · exact here c later
      · rcases List.mem_cons.mp hc with rfl | later'
        · exact absurd order (asymm _ _ (first b later))
        · exact there b later c later' order
    · intro all
      refine ⟨?_, ?_⟩
      · intro b hb
        exact all a (List.mem_cons_self ..) b (List.mem_cons_of_mem _ hb) (first b hb)
      · intro b hb c hc
        exact all b (List.mem_cons_of_mem _ hb) c (List.mem_cons_of_mem _ hc)

end SimpleFiles.Rename
