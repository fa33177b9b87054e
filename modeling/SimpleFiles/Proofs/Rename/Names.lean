import SimpleFiles.Execution.Rename
import SimpleFiles.Proofs.FileTree.Relabelling

/-! The names of entries while some of them have been renamed and others have not. -/
namespace SimpleFiles.Rename

open FileTree

def namesAfter (mode : CaseMode) (done : List Location) (l : Location) : String :=
  if done.contains l then FileName.renamed mode (lastName l) else lastName l

def Changes (mode : CaseMode) (l : Location) : Prop :=
  FileName.renamed mode (lastName l) ≠ lastName l

section
variable {mode : CaseMode} {done : List Location} {l : Location}

theorem namesAfter_of_mem (h : l ∈ done) :
    namesAfter mode done l = FileName.renamed mode (lastName l) :=
  if_pos (List.contains_iff_mem.mpr h)

theorem namesAfter_of_not_mem (h : l ∉ done) : namesAfter mode done l = lastName l :=
  if_neg fun inDone => h (List.contains_iff_mem.mp inDone)

theorem namesAfter_of_not_changes (h : ¬ Changes mode l) : namesAfter mode done l = lastName l := by
  have kept : FileName.renamed mode (lastName l) = lastName l := Decidable.not_not.mp h
  rw [namesAfter, kept, ite_self]

end

section
variable (mode : CaseMode) (done : List Location)

theorem namesAfter_congr (other : List Location) (l : Location) (h : l ∈ done ↔ l ∈ other) :
    namesAfter mode done l = namesAfter mode other l := by
  by_cases inDone : l ∈ done
  · rw [namesAfter_of_mem inDone, namesAfter_of_mem (h.mp inDone)]
  · rw [namesAfter_of_not_mem inDone, namesAfter_of_not_mem (mt h.mpr inDone)]

theorem nameAt_namesAfter (l : Location) :
    nameAt (namesAfter mode done) l (FileName.renamed mode (lastName l)) =
      namesAfter mode (l :: done) := by
  funext m
  unfold nameAt
  by_cases here : m = l
  · subst here
    rw [if_pos rfl, namesAfter_of_mem (List.mem_cons_self ..)]
  · rw [if_neg here]
    exact namesAfter_congr mode done (l :: done) m (by simp [here])

theorem namesAfter_cons_of_not_changes (l : Location) (h : ¬ Changes mode l) :
    namesAfter mode (l :: done) = namesAfter mode done := by
  funext m
  by_cases here : m = l
  · subst here
    rw [namesAfter_of_not_changes h, namesAfter_of_not_changes h]
  · exact namesAfter_congr mode (l :: done) done m (by simp [here])

theorem relabel_of_none_above (l : Location)
    (h : ∀ m ∈ done, m ≠ [] → Changes mode m → ¬ m <+: l) :
    relabel (namesAfter mode done) l = l := by
  apply relabel_eq_self
  intro m filled above
  by_cases inDone : m ∈ done
  · exact namesAfter_of_not_changes fun changed => h m inDone filled changed above
  · exact namesAfter_of_not_mem inDone

end

theorem isImage_self (t : FileTree) (mode : CaseMode) :
    t.IsImage t (relabel (namesAfter mode [])) := by
  have kept : ∀ l, relabel (namesAfter mode []) l = l := fun l =>
    relabel_of_none_above mode [] l (by simp)
  intro e
  constructor
  · exact fun he => ⟨e.1, he, kept e.1⟩
  · rintro ⟨l, hl, same⟩
    rw [kept] at same
    rw [same] at hl
    exact hl

section
variable {t : FileTree} {mode : CaseMode} {all done : List Location}

/-- When the last names tell siblings apart, so do those in between: a new name that is the
old one of a sibling would stay the name of both. -/
theorem separates_of_subset (h : t.Separates (namesAfter mode all)) (subset : done ⊆ all) :
    t.Separates (namesAfter mode done) := by
  have mixed : ∀ l a b, t.contains (l ++ [a]) = true → t.contains (l ++ [b]) = true →
      l ++ [a] ∈ done → FileName.renamed mode a = b → a = b := by
    intro l a b ha hb inDone renamed
    apply h l a b ha hb
    have settled : ¬ Changes mode (l ++ [b]) := by
      rw [Changes, lastName_concat, ← renamed, FileName.renamed_renamed]
      exact not_not_intro rfl
    rw [namesAfter_of_mem (subset inDone), namesAfter_of_not_changes settled, lastName_concat,
      lastName_concat, renamed]
  intro l a b ha hb same
  by_cases first : l ++ [a] ∈ done
  · by_cases second : l ++ [b] ∈ done
    · apply h l a b ha hb
      rwa [namesAfter_of_mem first, namesAfter_of_mem second,
        ← namesAfter_of_mem (subset first), ← namesAfter_of_mem (subset second)] at same
    · rw [namesAfter_of_mem first, namesAfter_of_not_mem second, lastName_concat,
        lastName_concat] at same
      exact mixed l a b ha hb first same
  · rw [namesAfter_of_not_mem first, lastName_concat] at same
    by_cases second : l ++ [b] ∈ done
    · rw [namesAfter_of_mem second, lastName_concat] at same
      exact (mixed l b a hb ha second same.symm).symm
    · rw [namesAfter_of_not_mem second, lastName_concat] at same
      exact same

theorem relabel_ne_of_changed (closed : t.IsClosed) (h : t.Separates (namesAfter mode done))
    (l m k : Location) (hl : t.contains l = true) (hk : t.contains k = true) (inDone : m ∈ done)
    (filled : m ≠ []) (changed : Changes mode m) (above : m <+: l) :
    relabel (namesAfter mode done) k ≠ l := by
  induction l using List.reverseRecOn generalizing m k with
  | nil => exact absurd (List.prefix_nil.mp above) filled
  | append_singleton l s ih =>
    intro same
    have hl' := t.contains_above closed _ l hl (List.prefix_append _ _)
    have long : k ≠ [] := by
      rintro rfl
      simp [relabel, relabelFrom] at same
    obtain ⟨k, r, rfl⟩ := (List.eq_nil_or_concat' k).resolve_left long
    have hk' := t.contains_above closed _ k hk (List.prefix_append _ _)
    rw [relabel_concat] at same
    have parent := List.append_inj_left' same rfl
    have last : namesAfter mode done (k ++ [r]) = s :=
      (List.cons.inj (List.append_inj_right' same rfl)).1
    by_cases higher : ∃ m' ∈ done, m' ≠ [] ∧ Changes mode m' ∧ m' <+: l
    · obtain ⟨m', inDone', filled', changed', above'⟩ := higher
      exact ih m' k hl' hk' inDone' filled' changed' above' parent
    · have here : m = l ++ [s] := by
        rcases List.prefix_concat_iff.mp above with here | above
        · exact here
        · exact absurd ⟨m, inDone, filled, changed, above⟩ higher
      subst here
      have kept : relabel (namesAfter mode done) l = l :=
        relabel_of_none_above mode done l fun m' inDone' filled' changed' above' =>
          higher ⟨m', inDone', filled', changed', above'⟩
      have equal : k = l := t.relabel_injective closed _ h k l hk' hl' (by rw [parent, kept])
      subst equal
      rw [Changes, lastName_concat] at changed
      by_cases other : k ++ [r] ∈ done
      · rw [namesAfter_of_mem other, lastName_concat] at last
        exact changed (by rw [← last, FileName.renamed_renamed])
      · rw [namesAfter_of_not_mem other, lastName_concat] at last
        exact other (last ▸ inDone)

end

end SimpleFiles.Rename
