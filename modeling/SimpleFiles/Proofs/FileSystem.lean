import SimpleFiles.Filter
import SimpleFiles.Proofs.FileTree.Walking

/-! What calls come to when their paths are known to lead somewhere, or to lead nowhere. -/
namespace SimpleFiles.FileSystem

theorem rename_to_free (fs : FileSystem) (old new : Path) (source target : LastName) (n : Node)
    (hold : LastName.ofPath fs.tree old = .ok (some source))
    (hnew : LastName.ofPath fs.tree new = .ok (some target))
    (noSlash : source.hasSlash = false ∧ target.hasSlash = false)
    (hn : fs.tree.get? source.location = some n) (outside : ¬ source.location <+: target.parent)
    (notAbove : ¬ target.location <+: source.parent) (differ : source.location ≠ target.location)
    (free : fs.tree.get? target.location = none) :
    ∃ fs', fs.rename old new = .ok fs' ∧
      fs'.tree = fs.tree.move source.location target.location := by
  rw [← List.isPrefixOf_iff_prefix, Bool.not_eq_true] at outside notAbove
  unfold rename
  simp only [hold, hnew, bind, Except.bind, hn, outside, notAbove, noSlash.1, noSlash.2,
    Bool.or_self, Bool.and_false, Bool.false_eq_true, if_false, if_neg differ, free]
  exact ⟨_, rfl, rfl⟩

theorem rename_of_free (fs : FileSystem) (old new : Path) (parent : Location)
    (name newName : String) (n : Node)
    (hold : LastName.ofPath fs.tree old = .ok (some ⟨parent, name, false⟩))
    (hnew : LastName.ofPath fs.tree new = .ok (some ⟨parent, newName, false⟩))
    (hn : fs.tree.get? (parent ++ [name]) = some n) (hne : newName ≠ name)
    (free : fs.tree.get? (parent ++ [newName]) = none) :
    ∃ fs', fs.rename old new = .ok fs' ∧
      fs'.tree = fs.tree.move (parent ++ [name]) (parent ++ [newName]) := by
  have above : ∀ s, ¬ parent ++ [s] <+: parent := by
    intro s h
    have long := h.length_le
    rw [List.length_append, List.length_singleton] at long
    omega
  exact fs.rename_to_free old new _ _ n hold hnew ⟨rfl, rfl⟩ hn (above name) (above newName)
    (by simpa [LastName.location] using hne.symm) free

theorem rename_of_lost (fs : FileSystem) (old new : Path)
    (h : (∃ e, LastName.ofPath fs.tree old = .error e) ∨
      ∃ e, LastName.ofPath fs.tree new = .error e) :
    ∃ e, fs.rename old new = .error e := by
  unfold rename
  rcases h with ⟨e, he⟩ | ⟨e, he⟩
  · rw [he]
    exact ⟨e, rfl⟩
  · cases LastName.ofPath fs.tree old with
    | error f => exact ⟨f, rfl⟩
    | ok last =>
      rw [he]
      exact ⟨e, rfl⟩

section
variable (fs : FileSystem) (p : Path) (l : Location)
  (h : Place.locate fs.tree true p = .ok l)

include h in
theorem pathExists_of_locate : fs.pathExists p = true := by
  unfold pathExists metadata
  rw [h]
  simp only [bind, Except.bind]
  split
  · rfl
  · rfl

include h in
theorem isDirectory_of_locate : fs.isDirectory p = fs.tree.isDirectory l := by
  unfold isDirectory
  rw [h]

end

theorem exists_metadata_of_locate (fs : FileSystem) (p : Path) (l : Location)
    (h : Place.locate fs.tree true p = .ok l) :
    ∃ data, fs.metadata p = .ok data ∧ data.isDirectory = fs.tree.isDirectory l := by
  unfold metadata
  rw [h]
  simp only [bind, Except.bind]
  split
  · rename_i content found
    refine ⟨_, rfl, ?_⟩
    rw [FileTree.isDirectory, found]
    rfl
  · exact ⟨_, rfl, rfl⟩

theorem exists_locate_of_pathExists (fs : FileSystem) (p : Path) (h : fs.pathExists p = true) :
    ∃ l, Place.locate fs.tree true p = .ok l := by
  unfold pathExists metadata at h
  cases located : Place.locate fs.tree true p with
  | ok l => exact ⟨l, rfl⟩
  | error e =>
    rw [located] at h
    cases h

theorem exists_locate_of_isDirectory (fs : FileSystem) (p : Path)
    (h : fs.isDirectory p = true) :
    ∃ l, Place.locate fs.tree true p = .ok l ∧ fs.tree.isDirectory l = true := by
  unfold isDirectory at h
  split at h
  · exact ⟨_, by assumption, h⟩
  · cases h

theorem checkText_of_metadata (fs : FileSystem) (p : Path) (data : Metadata)
    (h : fs.metadata p = .ok data) : Place.checkText p = .ok () := by
  unfold metadata Place.locate Place.ofPath at h
  cases hc : Place.checkText p with
  | ok u => rfl
  | error e =>
    rw [hc] at h
    cases h

end SimpleFiles.FileSystem

theorem SimpleFiles.Filter.isDirectory_eq_false_of_accepts (f : Filter) (files : f.kind = some .file)
    (fs : FileSystem) (p : Path) (l : Location) (located : Place.locate fs.tree true p = .ok l)
    (h : f.accepts fs p = true) : fs.tree.isDirectory l = false := by
  obtain ⟨data, found, kind⟩ := fs.exists_metadata_of_locate p l located
  rw [← kind]
  simp only [Filter.accepts, found, Filter.admits, files, EntryKind.admits, Bool.and_eq_true,
    Option.all_some, Bool.not_eq_true'] at h
  exact h.1.1.2

theorem SimpleFiles.Filter.checkText_of_accepts (f : Filter) (fs : FileSystem) (p : Path)
    (h : f.accepts fs p = true) : Place.checkText p = .ok () := by
  unfold Filter.accepts at h
  split at h
  · rename_i data found
    exact fs.checkText_of_metadata p data found
  · cases h

namespace SimpleFiles.Place

theorem checkText_eq_ok_iff (p : Path) :
    checkText p = .ok () ↔
      '\x00' ∉ p.text.toList ∧ p.text ≠ "" ∧ p.text.utf8ByteSize < maxPathSize := by
  unfold checkText
  split
  · rename_i zero
    constructor
    · intro h
      cases h
    · exact fun h => absurd zero h.1
  · rename_i noZero
    split
    · rename_i empty
      constructor
      · intro h
        cases h
      · exact fun h => absurd empty h.2.1
    · rename_i filled
      split
      · rename_i long
        constructor
        · intro h
          cases h
        · exact fun h => absurd h.2.2 (Nat.not_lt_of_le long)
      · rename_i short
        exact ⟨fun _ => ⟨noZero, filled, Nat.lt_of_not_le short⟩, fun _ => rfl⟩

end SimpleFiles.Place
