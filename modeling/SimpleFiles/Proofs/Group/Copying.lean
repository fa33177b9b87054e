import Mathlib.Data.List.Basic
import SimpleFiles.Execution.Group
import SimpleFiles.Proofs.FileSystem.Growth

/-! What a transfer comes to, and grouping by copies: nothing that was there goes, and nothing
changes but the content of files that a copy is made onto. -/
namespace SimpleFiles.Group

open FileTree

section
variable {fs fs' : FileSystem} {mode : GroupMode} {entry target : Path} {isDone : Bool}

theorem makeParent_cases (fs : FileSystem) (target : Path) :
    (makeParent fs target).1 = fs ∨ ∃ parent, target.parent? = some parent ∧
      (makeParent fs target).1 = (fs.createAll parent).1 := by
  unfold makeParent
  split
  · exact .inl rfl
  · rename_i parent found
    refine .inr ⟨parent, found, ?_⟩
    split
    · rename_i made
      rw [made]
    · rename_i failed
      rw [failed]

theorem moveEntry_cases (h : moveEntry fs entry target = (fs', isDone)) :
    (isDone = true ∧ fs.rename entry target = .ok fs') ∨
      (∃ fs₁, fs.copyFile entry target = .ok fs₁ ∧
        (isDone = true ∧ fs₁.removeFile entry = .ok fs' ∨ isDone = false ∧ fs' = fs₁)) ∨
      (isDone = false ∧ fs' = fs) := by
  unfold moveEntry at h
  split at h
  · rename_i moved
    cases h
    exact .inl ⟨rfl, moved⟩
  split at h
  · split at h
    · cases h
      exact .inr (.inr ⟨rfl, rfl⟩)
    · rename_i fs₁ copied
      refine .inr (.inl ⟨fs₁, copied, ?_⟩)
      split at h
      · cases h
        exact .inr ⟨rfl, rfl⟩
      · rename_i removed
        cases h
        exact .inl ⟨rfl, removed⟩
  · cases h
    exact .inr (.inr ⟨rfl, rfl⟩)

theorem copyEntry_cases (h : copyEntry fs entry target = (fs', isDone)) :
    (∃ made, fs.createAll target = (fs', made) ∧ (isDone = true → made = .ok ())) ∨
      (isDone = true ∧ fs.copyFile entry target = .ok fs') ∨ (isDone = false ∧ fs' = fs) := by
  unfold copyEntry at h
  split at h
  · split at h
    · rename_i made
      cases h
      exact .inl ⟨_, made, fun _ => rfl⟩
    · rename_i failed
      cases h
      exact .inl ⟨_, failed, nofun⟩
  · split at h
    · rename_i copied
      cases h
      exact .inr (.inl ⟨rfl, copied⟩)
    · cases h
      exact .inr (.inr ⟨rfl, rfl⟩)

theorem transfer_cases (h : transfer mode fs entry target = (fs', isDone)) :
    (isDone = false ∧ (fs' = fs ∨ fs' = (makeParent fs target).1)) ∨
      (isDone = true ∧ fs.pathExists entry = true ∧ target.same entry = true ∧ fs' = fs) ∨
      (target.same entry = false ∧
        ((mode = .move ∧ moveEntry (makeParent fs target).1 entry target = (fs', isDone)) ∨
          (mode = .copy ∧ copyEntry (makeParent fs target).1 entry target = (fs', isDone)))) := by
  unfold transfer at h
  split at h
  · cases h
    exact .inl ⟨rfl, .inl rfl⟩
  rename_i there
  split at h
  · rename_i same
    cases h
    exact .inr (.inl ⟨rfl, by simpa using there, same, rfl⟩)
  rename_i elsewhere
  rw [Bool.not_eq_true] at elsewhere
  split at h
  · rename_i failed
    cases h
    exact .inl ⟨rfl, .inr (by rw [failed])⟩
  · rename_i made
    rw [made]
    cases mode with
    | move => exact .inr (.inr ⟨elsewhere, .inl ⟨rfl, h⟩⟩)
    | copy => exact .inr (.inr ⟨elsewhere, .inr ⟨rfl, h⟩⟩)

end

theorem makeParent_grows (changed : Location → Prop) (fs : FileSystem) (p : Path) :
    fs.tree.Grows changed (makeParent fs p).1.tree := by
  rcases makeParent_cases fs p with same | ⟨parent, -, made⟩
  · rw [same]
    exact .refl _ _
  · rw [made]
    exact fs.createAll_grows changed parent

/-- After a copy onto a target that leads to the location, the entry is a file. -/
def WritesTo (fs : FileSystem) (entry target : Path) (l : Location) : Prop :=
  fs.isFile entry = true ∧ Place.locate fs.tree true target = .ok l

theorem WritesTo.grows {changed : Location → Prop} {fs fs' : FileSystem}
    (grown : fs.tree.Grows changed fs'.tree) {entry target : Path} {l : Location}
    (h : WritesTo fs entry target l) : WritesTo fs' entry target l :=
  ⟨FileSystem.isFile_of_grows grown entry h.1, Place.locate_of_grows grown target l h.2⟩

theorem copyEntry_grows (fs : FileSystem) (entry target : Path) :
    fs.tree.Grows (WritesTo (copyEntry fs entry target).1 entry target)
      (copyEntry fs entry target).1.tree := by
  cases done : copyEntry fs entry target with
  | mk fs' isDone =>
    rcases copyEntry_cases done with ⟨_, created, -⟩ | ⟨-, copied⟩ | ⟨-, rfl⟩
    · have grown := fs.createAll_grows (WritesTo fs' entry target) target
      rwa [created] at grown
    · obtain ⟨file, grown⟩ := FileSystem.copyFile_grows entry target copied
      refine grown.mono ?_
      intro l reached
      exact ⟨FileSystem.isFile_of_grows grown entry file, reached⟩
    · exact .refl _ _

theorem transfer_copy_grows (fs : FileSystem) (entry target : Path) :
    fs.tree.Grows
      (fun l => target.same entry = false ∧
        WritesTo (transfer .copy fs entry target).1 entry target l)
      (transfer .copy fs entry target).1.tree := by
  cases done : transfer .copy fs entry target with
  | mk fs' isDone =>
    rcases transfer_cases done with
      ⟨-, rfl | rfl⟩ | ⟨-, -, -, rfl⟩ | ⟨elsewhere, ⟨moves, -⟩ | ⟨-, copied⟩⟩
    · exact .refl _ _
    · exact makeParent_grows _ fs target
    · exact .refl _ _
    · cases moves
    · have grown := copyEntry_grows (makeParent fs target).1 entry target
      rw [copied] at grown
      exact (makeParent_grows _ fs target).trans (grown.mono fun l writes => ⟨elsewhere, writes⟩)

/-- One of the entries is a file, and its destination, which is another path, leads to the
location. -/
def CopiesOnto (fs : FileSystem) (base output : Path) (entries : List Path) (l : Location) : Prop :=
  ∃ entry ∈ entries, (destination entry base output).same entry = false ∧
    WritesTo fs entry (destination entry base output) l

theorem transferEach_cons (mode : GroupMode) (base output : Path) (fs : FileSystem) (entry : Path)
    (rest : List Path) :
    transferEach mode base output fs (entry :: rest) =
      let first := transfer mode fs entry (destination entry base output)
      let later := transferEach mode base output first.1 rest
      (later.1, if first.2 then destination entry base output :: later.2 else later.2) :=
  rfl

theorem transferEach_copy_grows (base output : Path) (fs : FileSystem) (entries : List Path) :
    fs.tree.Grows
      (CopiesOnto (transferEach .copy base output fs entries).1 base output entries)
      (transferEach .copy base output fs entries).1.tree := by
  induction entries generalizing fs with
  | nil => exact .refl _ _
  | cons entry rest ih =>
    rw [transferEach_cons]
    have first := transfer_copy_grows fs entry (destination entry base output)
    have later := ih (transfer .copy fs entry (destination entry base output)).1
    refine (first.mono ?_).trans (later.mono ?_)
    · rintro l ⟨elsewhere, writes⟩
      exact ⟨entry, List.mem_cons_self .., elsewhere, writes.grows later⟩
    · rintro l ⟨other, listed, copied⟩
      exact ⟨other, List.mem_cons_of_mem _ listed, copied⟩

/-- Whatever becomes of a group that copies, every entry stays: a directory or a link as it
was, and a file with its content, unless a file is copied onto it. -/
theorem run_copy_grows (fs : FileSystem) (dir : Path) (memory : Memory) (declared : Instruction)
    (condition : Option Condition) (p : Plan)
    (planned : plan fs dir memory declared condition = .ok p) (copies : p.mode = .copy) :
    fs.tree.Grows
      (CopiesOnto (run fs dir memory declared condition).1 p.base p.output p.entries)
      (run fs dir memory declared condition).1.tree := by
  have made := fun changed => fs.createAll_grows changed p.output
  unfold run
  simp only [planned]
  unfold perform
  split
  · rename_i failed
    rw [failed] at made
    exact made _
  · rename_i fs₁ ok
    rw [ok] at made
    have copied := transferEach_copy_grows p.base p.output fs₁ p.entries
    rw [← copies] at copied
    exact (made _).trans copied

def gather (target path mode : String) (options : List Parameter) : Instruction :=
  ⟨"gather", .group, [⟨"group_target", target, .zero⟩, ⟨"path", path, .zero⟩,
    ⟨"mode", mode, .zero⟩] ++ options, .zero⟩

def shelf : FileSystem where
  tree := .ofList [(["docs"], .directory), (["docs", "box"], .directory),
    (["docs", "box", "note"], .file ⟨#[2]⟩), (["docs", "note"], .file ⟨#[1]⟩)]
  clock := ⟨2024, 1, 1, 0, 0, 0⟩

def shelfPlan : Plan where
  mode := .copy
  entries := [⟨["", "docs", "box"]⟩, ⟨["", "docs", "box", "note"]⟩, ⟨["", "docs", "note"]⟩]
  base := ⟨["", "docs"]⟩
  output := ⟨["", "docs", "box"]⟩

theorem run_copy_grows_shelf :
    plan shelf (.ofText "/") .empty (gather "docs" "docs/box" "copy" []) none = .ok shelfPlan ∧
      shelfPlan.mode = .copy ∧
      shelf.tree.Grows
        (CopiesOnto (run shelf (.ofText "/") .empty (gather "docs" "docs/box" "copy" []) none).1
          shelfPlan.base shelfPlan.output shelfPlan.entries)
        (run shelf (.ofText "/") .empty (gather "docs" "docs/box" "copy" []) none).1.tree := by
  have planned : plan shelf (.ofText "/") .empty (gather "docs" "docs/box" "copy" []) none =
      .ok shelfPlan := by
    decide +kernel
  exact ⟨planned, rfl, run_copy_grows _ _ _ _ _ shelfPlan planned rfl⟩

example :
    (run shelf (.ofText "/") .empty (gather "docs" "docs/../docs" "copy" []) none).1.tree.get?
      ["docs", "note"] = some (.file .empty) := by
  decide +kernel

end SimpleFiles.Group
