import SimpleFiles.Proofs.FileSystem.Changes
import SimpleFiles.Proofs.FileSystem.Holding

/-! What a move leaves where it is, in any tree, links included. A path goes on naming an entry
if the directory of its last name is found without the entry that is moved. -/
namespace SimpleFiles

namespace FileTree

open Place

variable {t u : FileTree} {p : Path}

/-- What stays where it is when one entry is moved onto another: what is not below it, nor below
the other one where a link is moved, or moved onto. -/
def unmoved (t : FileTree) (source target : Location) : FileTree :=
  if (t.get? source).any Node.isLink || (t.get? target).any Node.isLink then
    (t.prune source).prune target
  else t.prune source

theorem get?_prune (t : FileTree) (l : Location) (hl : l ≠ []) (m : Location) :
    (t.prune l).get? m = if l <+: m then none else t.get? m := by
  split
  · rename_i within
    have filled : m ≠ [] := by
      rintro rfl
      exact hl (List.prefix_nil.mp within)
    rw [get?_eq_none_iff _ m filled]
    exact fun n kept => ((t.mem_prune_iff l _).mp kept).2 within
  · rename_i outside
    exact get?_prune_of_outside t m l outside

theorem get?_of_unmoved (t : FileTree) (source target : Location) (hs : source ≠ [])
    (ht : target ≠ []) (l : Location) (n : Node) (h : (t.unmoved source target).get? l = some n) :
    t.get? l = some n ∧ ¬ source <+: l := by
  have pruned : (t.prune source).get? l = some n := by
    unfold unmoved at h
    split at h
    · rw [get?_prune _ _ ht] at h
      split at h
      · cases h
      · exact h
    · exact h
  rw [get?_prune _ _ hs] at pruned
  split at pruned
  · cases pruned
  · rename_i outside
    exact ⟨pruned, outside⟩

section
variable (source target : Location) (hs : source ≠ []) (ht : target ≠ []) {n : Node}
  (hn : t.get? source = some n) (bare : ∀ e ∈ t.entries, target <+: e.1 → e.1 = target)

include hs ht hn bare in
theorem get?_move_target : (t.move source target).get? target = some n := by
  have listed := (t.get?_eq_some_iff source hs n).mp hn
  rw [get?_eq_some_iff _ target ht, t.mem_move_iff_of_bare source target hs ht n listed bare]
  exact .inr ⟨[], by simpa using listed, by simp⟩

include ht bare in
theorem get?_move_of_kept (l : Location) (outside : ¬ source <+: l) (k : Node)
    (hk : t.get? l = some k) : l = target ∨ (t.move source target).get? l = some k := by
  by_cases within : target <+: l
  · have filled : l ≠ [] := by
      rintro rfl
      exact ht (List.prefix_nil.mp within)
    exact .inl (bare _ ((t.get?_eq_some_iff l filled k).mp hk) within)
  · rw [get?_move_of_outside t source target l ht outside within]
    exact .inr hk

include hs ht hn bare in
theorem unmoved_grows_move
    (fits : ∀ m, t.get? target = some m → m.isDirectory = n.isDirectory) :
    (t.unmoved source target).Grows (fun _ => True) (t.move source target) := by
  intro l k hk
  obtain ⟨found, outside⟩ := t.get?_of_unmoved source target hs ht l k hk
  rcases get?_move_of_kept source target ht bare l outside k found with rfl | same
  · have moved := get?_move_target source l hs ht hn bare
    have noLinks : n.isLink = false ∧ k.isLink = false := by
      unfold unmoved at hk
      simp only [hn, found, Option.any_some] at hk
      split at hk
      · rw [get?_prune _ _ ht, if_pos (List.prefix_refl _)] at hk
        cases hk
      · rename_i none
        simpa using none
    have alike := fits k found
    rw [moved]
    cases n with
    | link target => cases noLinks.1
    | directory =>
      cases k with
      | link target => cases noLinks.2
      | directory => exact .inl rfl
      | file content => cases alike
    | file new =>
      cases k with
      | link target => cases noLinks.2
      | directory => cases alike
      | file old => exact .inr ⟨trivial, old, new, rfl, rfl⟩
  · exact .inl same

theorem unmoved_grows_erase {changed : Location → Prop} (hs : source ≠ []) (ht : target ≠ [])
    (grown : t.Grows changed u) :
    (t.unmoved source target).Grows changed (u.erase source) := by
  intro l k hk
  obtain ⟨found, outside⟩ := t.get?_of_unmoved source target hs ht l k hk
  have elsewhere : l ≠ source := fun same => outside (same ▸ List.prefix_refl _)
  rw [get?_erase _ _ _ hs, if_neg elsewhere]
  exact grown l k found

end

/-- A path is not found where it was when one entry is moved onto another: it leads to the entry
itself, or its directory is found by way of what does not stay. -/
def Displaces (t : FileTree) (source target : Location) (p : Path) : Prop :=
  LastName.location? t p = some source ∨
    LastName.location? (t.unmoved source target) p ≠ LastName.location? t p

/-- What a path names is still there after a change that adds to what stays, if the path is not
displaced and the location of its last name is not cleared. -/
theorem holds_or_displaces {changed : Location → Prop} (source target : Location)
    (hs : source ≠ []) (ht : target ≠ []) (grown : (t.unmoved source target).Grows changed u)
    (l : Location)
    (hl : LastName.location? t p = some l)
    (kept : l ≠ source → ¬ source <+: l → u.contains l = true) :
    u.Holds p ∨ t.Displaces source target p := by
  by_cases displaced : t.Displaces source target p
  · exact .inr displaced
  left
  have elsewhere : l ≠ source := fun same => displaced (.inl (hl.trans (congrArg some same)))
  have stays : LastName.location? (t.unmoved source target) p = some l := by
    rw [← hl]
    exact Decidable.byContradiction fun moved => displaced (.inr moved)
  obtain ⟨last, found, rfl⟩ := LastName.exists_of_location? l stays
  obtain ⟨front, slashes, ends⟩ := LastName.exists_ends found
  have parent := (isDirectory_iff _ _).mp ends.directory
  have outside := (t.get?_of_unmoved source target hs ht _ _ parent).2
  refine ⟨_, LastName.location?_of_grows grown _ stays, kept elsewhere ?_⟩
  intro within
  rcases List.prefix_concat_iff.mp within with same | above
  · exact elsewhere same.symm
  · exact outside above

end FileTree

namespace FileSystem

open FileTree

variable {fs fs₁ fs' : FileSystem} {entry target p : Path}

/-- A path is not found where it was when an entry is moved to a target. -/
def Displaces (fs : FileSystem) (entry target p : Path) : Prop :=
  ∃ source goal, LastName.location? fs.tree entry = some source ∧
    LastName.location? fs.tree target = some goal ∧ fs.tree.Displaces source goal p

theorem holds_of_rename (closed : fs.tree.IsClosed) (h : fs.rename entry target = .ok fs')
    (l : Location)
    (hl : LastName.location? fs.tree p = some l)
    (there : fs.tree.contains l = true ∨ LastName.location? fs.tree target = some l) :
    fs'.tree.Holds p ∨ fs.Displaces entry target p := by
  obtain ⟨source, goal, n, hold, hnew, hn⟩ := names_of_rename h
  have filled : ∀ last : LastName, last.location ≠ [] := by simp [LastName.location]
  rw [LastName.location?_of_ofPath hnew, Option.some.injEq] at there
  rcases moves_of_rename hold hnew hn h with ⟨same, rfl⟩ | ⟨differ, empty, moved⟩
  · refine .inl ⟨l, hl, ?_⟩
    rcases there with there | rfl
    · exact there
    · exact (contains_iff _ _).mpr ⟨n, same ▸ hn⟩
  · have bare := closed.bare goal.location empty
    have fits := kinds_of_rename hold hnew hn h differ
    have grown := unmoved_grows_move _ _ (filled source) (filled goal) hn bare fits
    have onto := get?_move_target _ _ (filled source) (filled goal) hn bare
    rw [← moved] at grown onto
    refine (holds_or_displaces _ _ (filled source) (filled goal) grown l hl ?_).imp_right
      fun displaced => ⟨_, _, LastName.location?_of_ofPath hold,
        LastName.location?_of_ofPath hnew, displaced⟩
    intro _ outside
    rcases there with there | rfl
    · obtain ⟨k, hk⟩ := (contains_iff _ _).mp there
      rcases get?_move_of_kept _ _ (filled goal) bare l outside k hk with rfl | same
      · exact (contains_iff _ _).mpr ⟨n, onto⟩
      · exact (contains_iff _ _).mpr ⟨k, moved ▸ same⟩
    · exact (contains_iff _ _).mpr ⟨n, onto⟩

theorem exists_locate_of_write (content : ByteArray) (h : fs.write p content = .ok fs') :
    ∃ l, Place.locate fs'.tree true p = .ok l := by
  rcases write_cases p content h with
    ⟨parent, name, reached, rfl⟩ | ⟨l, old, reached, found, tree⟩
  · exact ⟨_, (Place.locate_iff_ofPath p _).mpr
      (Place.ofPath_of_insert p parent name (.file content) rfl reached)⟩
  · rw [tree]
    exact ⟨l, Place.locate_of_grows (grows_write (fun _ => True) _ l old content found trivial) p l
      ((Place.locate_iff_ofPath p l).mpr reached)⟩

theorem exists_locate_of_copyFile (h : fs.copyFile entry target = .ok fs') :
    ∃ l, Place.locate fs'.tree true target = .ok l := by
  obtain ⟨content, fs₁, emptied, rfl | written⟩ := copyFile_cases h
  · exact exists_locate_of_write .empty emptied
  · exact exists_locate_of_write content written

theorem exists_location_of_write (closed : fs.tree.IsClosed) (plain : p.IsPlain)
    (named : p.EndsInName) (content : ByteArray) (h : fs.write p content = .ok fs') :
    ∃ l, LastName.location? fs.tree p = some l := by
  unfold write at h
  simp only [bind, Except.bind] at h
  split at h
  · cases h
  rename_i found ofPath
  cases found with
  | some last => exact ⟨_, LastName.location?_of_ofPath ofPath⟩
  | none =>
    obtain ⟨m, located⟩ := LastName.exists_locate_of_none closed true ofPath
    obtain ⟨l, hl, -⟩ := holds_of_locate plain named located
    exact ⟨l, hl⟩

theorem holds_of_removeFile (closed : fs.tree.IsClosed) (source : entry.IsPlain)
    (arrives : target.IsPlain) (named : target.EndsInName)
    (copied : fs.copyFile entry target = .ok fs₁) (removed : fs₁.removeFile entry = .ok fs')
    (l : Location) (hl : LastName.location? fs.tree p = some l)
    (there : fs₁.tree.contains l = true) :
    fs'.tree.Holds p ∨ fs.Displaces entry target p := by
  obtain ⟨file, grown⟩ := copyFile_grows entry target copied
  obtain ⟨last, n, found, -, -, tree⟩ := lastName_of_removeFile removed
  have located : ∃ m, Place.locate fs.tree true entry = .ok m := by
    unfold isFile at file
    split at file
    · exact ⟨_, by assumption⟩
    · cases file
  obtain ⟨m, located⟩ := located
  have before := LastName.ofPath_of_located grown source located found
  obtain ⟨content, fs₂, emptied, -⟩ := copyFile_cases copied
  obtain ⟨goal, hgoal⟩ := exists_location_of_write closed arrives named .empty emptied
  have filled : last.location ≠ [] := by simp [LastName.location]
  have filled' : goal ≠ [] := by
    obtain ⟨onto, -, rfl⟩ := LastName.exists_of_location? goal hgoal
    simp [LastName.location]
  have stays := unmoved_grows_erase last.location goal filled filled' grown
  rw [← tree] at stays
  refine (holds_or_displaces _ _ filled filled' stays l hl ?_).imp_right fun displaced =>
    ⟨_, _, LastName.location?_of_ofPath before, hgoal, displaced⟩
  intro elsewhere _
  rw [tree, contains, get?_erase _ _ _ filled, if_neg elsewhere]
  exact there

end FileSystem
end SimpleFiles
