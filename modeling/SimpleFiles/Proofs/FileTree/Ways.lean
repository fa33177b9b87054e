import SimpleFiles.Proofs.FileSystem.Leading
import SimpleFiles.Proofs.FileTree.Placing
import SimpleFiles.Proofs.Path.Extending

/-! Where segments would lead if nothing were missing: without links, that is where they lead.
What lies below a location, and what a change leaves alone that stays below it. -/
namespace SimpleFiles

namespace FileTree

/-- Where segments would lead if nothing were missing and nothing were a link. -/
def wayEnd (at_ : Location) : List String → Location
  | [] => at_
  | s :: rest =>
    if Path.isIdle s then wayEnd at_ rest
    else if s = ".." then wayEnd at_.dropLast rest
    else wayEnd (at_ ++ [s]) rest

theorem wayEnd_append (at_ : Location) (first rest : List String) :
    wayEnd at_ (first ++ rest) = wayEnd (wayEnd at_ first) rest := by
  induction first generalizing at_ with
  | nil => rfl
  | cons s first ih =>
    simp only [List.cons_append, wayEnd]
    split
    · exact ih _
    · split <;> exact ih _

theorem wayEnd_steps (at_ : Location) (segments : List String) :
    wayEnd at_ (Path.steps segments) = wayEnd at_ segments := by
  induction segments generalizing at_ with
  | nil => rfl
  | cons s rest ih =>
    cases idle : Path.isIdle s with
    | true =>
      rw [Path.steps_cons_of_idle s rest idle, wayEnd, if_pos idle, ih]
    | false =>
      rw [Path.steps_cons_of_moving s rest idle]
      simp only [wayEnd, idle, Bool.false_eq_true, if_false]
      split <;> exact ih _

theorem wayEnd_idle (at_ : Location) (idle : List String)
    (allIdle : ∀ s ∈ idle, Path.isIdle s = true) : wayEnd at_ idle = at_ := by
  rw [← wayEnd_steps, Path.steps_of_idle idle allIdle, wayEnd]

theorem wayEnd_names (at_ : Location) (names : List String)
    (moving : ∀ s ∈ names, Path.isIdle s = false) (down : ".." ∉ names) :
    wayEnd at_ names = at_ ++ names := by
  induction names generalizing at_ with
  | nil => simp [wayEnd]
  | cons s rest ih =>
    obtain ⟨notUp, downRest⟩ := List.ne_and_not_mem_of_not_mem_cons down
    rw [wayEnd, moving s (List.mem_cons_self ..), if_neg Bool.false_ne_true, if_neg notUp.symm,
      ih _ (fun x hx => moving x (List.mem_cons_of_mem _ hx)) downRest]
    simp

theorem wayEnd_of_down (segments : List String) (down : ".." ∉ Path.steps segments) :
    wayEnd [] segments = Path.steps segments := by
  have moving : ∀ s ∈ Path.steps segments, Path.isIdle s = false := by
    intro s hs
    simpa using (List.mem_filter.mp hs).2
  rw [← wayEnd_steps, wayEnd_names [] _ moving down, List.nil_append]

theorem eq_wayEnd_of_walkTo? (t : FileTree) (at_ l : Location) (segments : List String)
    (h : t.walkTo? at_ segments = some l) : l = wayEnd at_ segments := by
  induction segments generalizing at_ with
  | nil => exact (Option.some.inj h).symm
  | cons s rest ih =>
    simp only [walkTo?, wayEnd] at h ⊢
    split at h
    · cases h
    split at h
    · rename_i idle
      rw [if_pos idle]
      exact ih _ h
    rename_i idle
    rw [if_neg idle]
    split at h
    · rename_i up
      rw [if_pos up]
      exact ih _ h
    rename_i up
    rw [if_neg up]
    split at h
    · cases h
    split at h
    · exact ih _ h
    · cases h

def LiesBelow (base l : Location) : Prop := base <+: l ∧ l ≠ base

instance (base l : Location) : Decidable (LiesBelow base l) :=
  inferInstanceAs (Decidable (_ ∧ _))

theorem liesBelow_append (base names : Location) (filled : names ≠ []) :
    LiesBelow base (base ++ names) :=
  ⟨List.prefix_append _ _, by simpa using filled⟩

theorem LiesBelow.deeper {base l m : Location} (h : LiesBelow base m) (above : m <+: l) :
    LiesBelow base l := by
  refine ⟨h.1.trans above, ?_⟩
  rintro rfl
  exact h.2 (above.eq_of_length_le h.1.length_le)

variable (t : FileTree)

theorem get?_erase (l m : Location) (hm : m ≠ []) :
    (t.erase m).get? l = if l = m then none else t.get? l := by
  by_cases root : l = []
  · subst root
    rw [if_neg hm.symm, get?_nil, get?_nil]
  · ext n
    rw [get?_eq_some_iff _ l root]
    split
    · rename_i here
      simp [erase, filter, here]
    · rename_i elsewhere
      rw [get?_eq_some_iff _ l root]
      simp [erase, filter, elsewhere]

theorem get?_prune_of_outside (l m : Location) (outside : ¬ m <+: l) :
    (t.prune m).get? l = t.get? l := by
  by_cases root : l = []
  · subst root
    rfl
  · ext n
    rw [get?_eq_some_iff _ l root, get?_eq_some_iff _ l root, mem_prune_iff]
    exact and_iff_left outside

theorem get?_insertAll_of_elsewhere (l : Location) (list : List (Location × Node))
    (named : ∀ e ∈ list, e.1 ≠ [] ∧ e.1 ≠ l) : (t.insertAll list).get? l = t.get? l := by
  induction list generalizing t with
  | nil => rfl
  | cons e rest ih =>
    obtain ⟨⟨filled, elsewhere⟩, later⟩ := List.forall_mem_cons.mp named
    have inserted := ih (t.insert e.1 e.2) later
    rw [get?_insert t _ filled, if_neg elsewhere.symm] at inserted
    exact inserted

theorem get?_move_of_outside (source target l : Location) (ht : target ≠ [])
    (notSource : ¬ source <+: l) (notTarget : ¬ target <+: l) :
    (t.move source target).get? l = t.get? l := by
  unfold move
  split
  · rfl
  · rename_i n _
    have elsewhere : l ≠ target := fun same => notTarget (same ▸ List.prefix_refl _)
    rw [get?_insertAll_of_elsewhere, get?_insert _ _ ht, if_neg elsewhere,
      get?_prune_of_outside _ _ _ notSource]
    intro e he
    obtain ⟨⟨names, k⟩, -, rfl⟩ := List.mem_map.mp he
    refine ⟨by simp [ht], ?_⟩
    rintro rfl
    exact notTarget (List.prefix_append _ _)

end FileTree

namespace Place

open FileTree

variable {t : FileTree}

theorem eq_wayEnd_of_leads (plain : t.HasNoLinks) (links : Nat) (at_ l : Location)
    (segments : List String) (h : Leads t true links at_ segments l) : l = wayEnd at_ segments :=
  t.eq_wayEnd_of_walkTo? at_ l segments
    ((walk_eq_ok_iff t plain true links at_ l segments).mp h.walk)

theorem free_of_walk_plain (plain : t.HasNoLinks) (links : Nat) (at_ parent : Location)
    (name : String) (segments : List String)
    (h : walk t true links at_ segments = .ok (.free parent name)) :
    parent ++ [name] = wayEnd at_ segments ∧ name ∈ segments ∧ Path.isIdle name = false ∧
      name ≠ ".." ∧ name.utf8ByteSize ≤ maxNameSize := by
  induction segments generalizing at_ with
  | nil => cases links <;> cases h
  | cons s rest ih =>
    have later : ∀ a, walk t true links a rest = .ok (.free parent name) →
        parent ++ [name] = wayEnd a rest ∧ name ∈ s :: rest ∧ Path.isIdle name = false ∧
          name ≠ ".." ∧ name.utf8ByteSize ≤ maxNameSize := fun a walked =>
      (ih a walked).imp_right (And.imp_left (List.mem_cons_of_mem _))
    rw [walk_cons] at h
    rw [wayEnd]
    split at h
    · cases h
    split at h
    · rename_i idle
      rw [if_pos idle]
      exact later _ h
    rename_i idle
    rw [if_neg idle]
    split at h
    · rename_i up
      rw [if_pos up]
      exact later _ h
    rename_i up
    rw [if_neg up]
    split at h
    · cases h
    rename_i short
    split at h
    · split at h
      · rename_i last
        cases h
        rw [last, wayEnd]
        exact ⟨rfl, List.mem_cons_self .., by simpa using idle, up, Nat.le_of_not_lt short⟩
      · cases h
    · rename_i target found
      exact absurd found (plain.get?_ne_link _ target)
    · exact later _ h

theorem checkText_of_ofPath {follow : Bool} {p : Path} {place : Place}
    (h : ofPath t follow p = .ok place) : checkText p = .ok () := by
  unfold ofPath at h
  cases hc : checkText p with
  | error e => simp [hc, bind, Except.bind] at h
  | ok u => rfl

theorem free_of_ofPath_plain (plain : t.HasNoLinks) (p : Path) (parent : Location) (name : String)
    (h : ofPath t true p = .ok (.free parent name)) :
    parent ++ [name] = wayEnd [] p.segments ∧ name ∈ p.segments ∧ Path.isIdle name = false ∧
      name ≠ ".." ∧ name.utf8ByteSize ≤ maxNameSize := by
  have asked := checkText_of_ofPath h
  unfold ofPath at h
  simp only [asked, bind, Except.bind] at h
  exact free_of_walk_plain plain maxLinks [] parent name p.segments h

end Place

namespace FileSystem

open FileTree

variable {fs : FileSystem} (proper : fs.tree.IsProper) (p : Path)

include proper in
theorem isDirectory_of_steps (asked : Place.checkText p = .ok ())
    (there : fs.tree.isDirectory (Path.steps p.segments) = true) : fs.isDirectory p = true := by
  have contained : fs.tree.contains (Path.steps p.segments) = true :=
    (contains_iff _ _).mpr ⟨_, (isDirectory_iff _ _).mp there⟩
  have walked := fs.tree.walkTo?_names [] (Path.steps p.segments)
    (proper.legal_of_contains _ contained) proper.closed contained
  rw [List.nil_append] at walked
  have located := (Place.locate_eq_ok_iff fs.tree proper.noLinks true p _).mpr
    ⟨asked, fs.tree.walkTo?_of_steps [] _ p.segments walked there⟩
  rwa [fs.isDirectory_of_locate p _ located]

include proper in
theorem isDirectory_wayEnd (h : fs.isDirectory p = true) :
    Place.checkText p = .ok () ∧ fs.tree.isDirectory (wayEnd [] p.segments) = true := by
  obtain ⟨l, located, directory⟩ := fs.exists_locate_of_isDirectory p h
  obtain ⟨asked, walked⟩ := (Place.locate_eq_ok_iff fs.tree proper.noLinks true p l).mp located
  rw [eq_wayEnd_of_walkTo? _ _ _ _ walked] at directory
  exact ⟨asked, directory⟩

end FileSystem

theorem Path.isLegalName_of_mem (p : Path) (plain : p.IsPlain) (asked : Place.checkText p = .ok ())
    (name : String) (inside : name ∈ p.segments) (named : isIdle name = false) (notUp : name ≠ "..")
    (short : name.utf8ByteSize ≤ Place.maxNameSize) : FileTree.IsLegalName name := by
  have filled : name ≠ "" ∧ name ≠ "." := by simpa [isIdle] using named
  refine ⟨⟨filled.1, filled.2, notUp, plain name inside, ?_⟩, short⟩
  intro zero
  exact ((Place.checkText_eq_ok_iff p).mp asked).1
    ((mem_text_iff p _ (by decide)).mpr ⟨name, inside, zero⟩)

end SimpleFiles
