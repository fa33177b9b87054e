import SimpleFiles.Proofs.FileSystem
import SimpleFiles.Proofs.FileSystem.Directories

/-! An entry that is copied or moved to a free place in a directory. -/
namespace SimpleFiles.FileSystem

open FileTree

/-- A path leads to a name in a directory where nothing has that name. -/
structure LeadsToFree (t : FileTree) (front : List String) (name : String)
    (parent : Location) : Prop where
  asked : Place.checkText ⟨front ++ [name]⟩ = .ok ()
  reached : t.walkTo? [] front = some parent
  directory : t.isDirectory parent = true
  legal : IsLegalName name
  free : t.get? (parent ++ [name]) = none

namespace LeadsToFree

variable {t u : FileTree} {front : List String} {name : String} {parent : Location}

theorem lastName (h : LeadsToFree t front name parent) (plain : t.HasNoLinks) :
    LastName.ofPath t ⟨front ++ [name]⟩ = .ok (some ⟨parent, name, false⟩) :=
  LastName.ofPath_of_walkTo? t plain front name h.legal.1 parent h.asked h.reached h.directory
    h.legal.2

theorem place (h : LeadsToFree t front name parent) (plain : t.HasNoLinks) :
    Place.ofPath t true ⟨front ++ [name]⟩ = .ok (.free parent name) := by
  have moves := Path.isIdle_of_isEntryName name h.legal.1
  unfold Place.ofPath
  simp only [h.asked, bind, Except.bind]
  rw [Place.walk_append t plain true Place.maxLinks [] parent front [name] h.reached,
    Place.walk_cons, h.directory, moves, if_neg h.legal.1.notParent,
    if_neg (Nat.not_lt_of_le h.legal.2), h.free]
  rfl

theorem filled (_ : LeadsToFree t front name parent) : parent ++ [name] ≠ [] := by simp

theorem insert (h : LeadsToFree t front name parent) (proper : t.IsProper) (n : Node)
    (noLink : n.isLink = false) : (t.insert (parent ++ [name]) n).IsProper := by
  refine proper.insert parent name n h.directory h.legal ?_ noLink
  rw [FileTree.isDirectory, h.free]
  rfl

theorem leadsDown (h : LeadsToFree t front name parent) :
    t.LeadsDown ⟨front ++ [name]⟩ parent [name] := by
  have named : ∀ s ∈ [name], IsEntryName s := by simpa using h.legal.1
  refine ⟨.inr h.asked, ⟨Path.steps front, ?_, t.walkTo?_steps [] parent front h.reached⟩,
    h.directory, by simpa using h.legal, ?_, ?_⟩
  · rw [Path.steps_append, Path.steps_of_named [name] named]
  · intro m hm there
    rcases List.prefix_cons_iff.mp hm with rfl | ⟨rest, rfl, none⟩
    · rw [List.append_nil]
      exact h.directory
    · rw [List.prefix_nil.mp none, contains, h.free] at there
      cases there
  · intro dot
    simp [Path.EndsInDot, h.legal.1.filled, h.legal.1.notCurrent] at dot

theorem get?_of_furnishes (h : LeadsToFree t front name parent) (closed : t.IsClosed)
    (furnished : t.Furnishes (parent ++ [name]) u) (m : Location) :
    u.get? m = if m = parent ++ [name] then some .directory else t.get? m := by
  have above : ∀ l, l <+: parent → t.get? l ≠ none := by
    intro l hl
    have there := t.contains_above closed parent l
      (by rw [contains, (t.isDirectory_iff parent).mp h.directory]; rfl) hl
    rw [contains] at there
    intro none
    rw [none] at there
    cases there
  rw [furnished.get?]
  simp only [List.prefix_concat_iff]
  by_cases here : m = parent ++ [name]
  · simp [here, h.free]
  · simp only [here, false_or, if_false]
    rw [if_neg fun made => above m made.2 made.1]

end LeadsToFree

section
variable {fs : FileSystem} {front : List String} {name : String} {parent : Location}
  (proper : fs.tree.IsProper) (target : LeadsToFree fs.tree front name parent)

include proper target in
theorem write_to_free (content : ByteArray) :
    ∃ fs', fs.write ⟨front ++ [name]⟩ content = .ok fs' ∧
      fs'.tree = fs.tree.insert (parent ++ [name]) (.file content) := by
  unfold write
  rw [target.lastName proper.noLinks, target.place proper.noLinks]
  simp only [bind, Except.bind, Option.any_some,
    LastName.endsInSlash_of_hasNoLinks _ proper.noLinks, Bool.false_eq_true, if_false]
  exact ⟨_, rfl, rfl⟩

include proper target in
theorem write_again (old content : ByteArray) {fs₁ : FileSystem}
    (tree : fs₁.tree = fs.tree.insert (parent ++ [name]) (.file old)) :
    ∃ fs', fs₁.write ⟨front ++ [name]⟩ content = .ok fs' ∧ fs'.tree.IsProper ∧
      fs'.tree = fs₁.tree.insert (parent ++ [name]) (.file content) := by
  have proper₁ : fs₁.tree.IsProper := tree ▸ target.insert proper (.file old) rfl
  have kept : ∀ m, fs.tree.contains m = true → fs₁.tree.get? m = fs.tree.get? m := by
    intro m there
    have elsewhere : m ≠ parent ++ [name] := by
      rintro rfl
      rw [contains, target.free] at there
      cases there
    rw [tree, get?_insert _ _ target.filled, if_neg elsewhere]
  have reached := fs.tree.walkTo?_of_kept fs₁.tree proper.closed [] parent front rfl target.reached
    fun m _ => kept m
  have directory : fs₁.tree.isDirectory parent = true := by
    have found := (fs.tree.isDirectory_iff parent).mp target.directory
    rw [isDirectory_iff, kept parent ((fs.tree.contains_iff parent).mpr ⟨_, found⟩), found]
  have found : fs₁.tree.get? (parent ++ [name]) = some (.file old) := by
    rw [tree, get?_insert _ _ target.filled, if_pos rfl]
  have there : fs₁.tree.contains (parent ++ [name]) = true :=
    (fs₁.tree.contains_iff _).mpr ⟨_, found⟩
  have last := LastName.ofPath_of_walkTo? fs₁.tree proper₁.noLinks front name target.legal.1 parent
    target.asked reached directory target.legal.2
  have moves := Path.isIdle_of_isEntryName name target.legal.1
  have place : Place.ofPath fs₁.tree true ⟨front ++ [name]⟩ = .ok (.entry (parent ++ [name])) := by
    unfold Place.ofPath
    simp only [target.asked, bind, Except.bind]
    rw [Place.walk_append fs₁.tree proper₁.noLinks true Place.maxLinks [] parent front [name] reached,
      Place.walk_cons_of_contains fs₁.tree proper₁.noLinks true Place.maxLinks parent name []
        directory moves target.legal.1.notParent target.legal.2 there]
    rfl
  have file : fs₁.tree.isFile (parent ++ [name]) = true := by
    rw [FileTree.isFile, found]
    rfl
  have noDirectory : fs₁.tree.isDirectory (parent ++ [name]) = false := by
    rw [FileTree.isDirectory, found]
    rfl
  unfold write
  rw [last, place]
  simp only [bind, Except.bind, Option.any_some,
    LastName.endsInSlash_of_hasNoLinks _ proper₁.noLinks, Bool.false_eq_true, if_false, file,
    if_true]
  exact ⟨_, rfl, proper₁.insert parent name _ directory target.legal noDirectory rfl, rfl⟩

include proper target in
theorem copyFile_to_free (source : Path) (l : Location) (content : ByteArray)
    (located : Place.locate fs.tree true source = .ok l)
    (found : fs.tree.get? l = some (.file content)) :
    ∃ fs', fs.copyFile source ⟨front ++ [name]⟩ = .ok fs' ∧ fs'.tree.IsProper ∧
      ∀ m, fs'.tree.get? m =
        if m = parent ++ [name] then some (.file content) else fs.tree.get? m := by
  have elsewhere : l ≠ parent ++ [name] := by
    rintro rfl
    rw [target.free] at found
    cases found
  obtain ⟨fs₁, emptied, tree⟩ := write_to_free proper target .empty
  obtain ⟨fs₂, written, proper₂, tree'⟩ := write_again proper target .empty content tree
  have proper₁ : fs₁.tree.IsProper := tree ▸ target.insert proper (.file .empty) rfl
  have still : fs₁.tree.get? l = some (.file content) := by
    rw [tree, get?_insert _ _ target.filled, if_neg elsewhere, found]
  unfold copyFile
  rw [located]
  simp only [bind, Except.bind, found, emptied, still]
  by_cases empty : some (Node.file content) = some (.file .empty)
  · rw [if_pos empty]
    refine ⟨fs₁, rfl, proper₁, ?_⟩
    intro m
    rw [tree, get?_insert _ _ target.filled, empty]
  · rw [if_neg empty]
    refine ⟨fs₂, written, proper₂, ?_⟩
    intro m
    rw [tree', tree, get?_insert _ _ target.filled, get?_insert _ _ target.filled]
    split
    · rfl
    · rfl

include proper target in
theorem rename_to_free_place (sourceFront : List String) (sourceName : String)
    (sourceParent : Location) (asked : Place.checkText ⟨sourceFront ++ [sourceName]⟩ = .ok ())
    (reached : fs.tree.walkTo? [] sourceFront = some sourceParent)
    (there : fs.tree.contains (sourceParent ++ [sourceName]) = true)
    (outside : ¬ sourceParent ++ [sourceName] <+: parent ++ [name]) :
    ∃ fs', fs.rename ⟨sourceFront ++ [sourceName]⟩ ⟨front ++ [name]⟩ = .ok fs' ∧
      fs'.tree.IsProper ∧
      ∀ m, fs'.tree.get? m =
        if parent ++ [name] <+: m then
          fs.tree.get? (sourceParent ++ [sourceName] ++ m.drop (parent ++ [name]).length)
        else if sourceParent ++ [sourceName] <+: m then none
        else fs.tree.get? m := by
  obtain ⟨n, hn⟩ := (fs.tree.contains_iff _).mp there
  have filled : sourceParent ++ [sourceName] ≠ [] := by simp
  obtain ⟨legal, short⟩ := proper.legal_of_contains _ there sourceName (by simp)
  have inParent := fs.tree.isDirectory_of_contains proper.closed _ _ there
  have source := LastName.ofPath_of_walkTo? fs.tree proper.noLinks sourceFront sourceName legal
    sourceParent asked reached inParent short
  have outsideParent : ¬ sourceParent ++ [sourceName] <+: parent := fun within =>
    outside (within.trans (List.prefix_append _ _))
  have notAbove : ¬ parent ++ [name] <+: sourceParent := by
    intro above
    have taken := fs.tree.contains_above proper.closed _ _ there
      (above.trans (List.prefix_append _ _))
    rw [contains, target.free] at taken
    cases taken
  have differ : sourceParent ++ [sourceName] ≠ parent ++ [name] := fun same =>
    outside (same ▸ List.prefix_refl _)
  obtain ⟨fs', renamed, moved⟩ := fs.rename_to_free _ _ _ _ n source
    (target.lastName proper.noLinks) ⟨rfl, rfl⟩ hn outsideParent notAbove differ target.free
  refine ⟨fs', renamed, ?_, ?_⟩
  · rw [moved]
    exact proper.move _ parent name filled there target.directory target.legal target.free
      outsideParent
  · intro m
    rw [moved]
    exact proper.get?_move _ parent name filled there target.free m

end
end SimpleFiles.FileSystem
