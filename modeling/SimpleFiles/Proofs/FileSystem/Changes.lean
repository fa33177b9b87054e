import Mathlib.Logic.Relation
import SimpleFiles.Proofs.FileSystem.Calls

/-! Calls one after the other, and what none of them breaks. A tree as a disk may hold it, links
included, stays one whatever calls are made on it. -/
namespace SimpleFiles

def Node.HasNoZero : Node → Prop
  | .link target => '\x00' ∉ target.toList
  | _ => True

instance : DecidablePred Node.HasNoZero
  | .link target => inferInstanceAs (Decidable ('\x00' ∉ target.toList))
  | .file _ => .isTrue trivial
  | .directory => .isTrue trivial

namespace FileTree

/-- A tree as a disk may hold it: entries lie in directories, and what they are called and what
links say can stand in paths. -/
structure IsSound (t : FileTree) : Prop where
  closed : t.IsClosed
  named : ∀ e ∈ t.entries, ∀ s ∈ e.1, IsEntryName s
  texts : ∀ e ∈ t.entries, e.2.HasNoZero

instance (t : FileTree) : Decidable t.IsSound :=
  decidable_of_iff (t.IsClosed ∧ (∀ e ∈ t.entries, ∀ s ∈ e.1, IsEntryName s) ∧
      ∀ e ∈ t.entries, e.2.HasNoZero)
    ⟨fun ⟨closed, named, texts⟩ => ⟨closed, named, texts⟩,
      fun h => ⟨h.closed, h.named, h.texts⟩⟩

namespace IsSound

variable {t : FileTree} (sound : t.IsSound)

include sound in
theorem hasNoZero_of_get? (l : Location) (n : Node) (found : t.get? l = some n) :
    n.HasNoZero := by
  by_cases root : l = []
  · subst root
    cases found
    trivial
  · exact sound.texts _ ((t.get?_eq_some_iff l root n).mp found)

section
variable (parent : Location) (name : String) (n : Node) (directory : t.isDirectory parent = true)
  (named : IsEntryName name)

include sound directory named in
theorem insert (vacant : t.isDirectory (parent ++ [name]) = false) (text : n.HasNoZero) :
    (t.insert (parent ++ [name]) n).IsSound := by
  refine ⟨sound.closed.insert parent name n directory vacant,
    forall_names_insert sound.named parent name n directory named, ?_⟩
  intro e he
  rcases (t.mem_insert_iff _ (by simp) n e).mp he with rfl | ⟨he, -⟩
  · exact text
  · exact sound.texts e he

include sound directory named in
theorem move (source : Location) (filled : source ≠ []) (found : t.get? source = some n)
    (empty : t.isDirectory (parent ++ [name]) = true → t.under (parent ++ [name]) = [])
    (outside : ¬ source <+: parent) : (t.move source (parent ++ [name])).IsSound := by
  have listed := (t.get?_eq_some_iff source filled n).mp found
  have bare := sound.closed.bare _ empty
  have onTop : (parent ++ [name]).dropLast = parent := List.dropLast_concat
  refine ⟨sound.closed.move t source _ filled (by simp) n listed bare ?_ ?_,
    forall_names_move sound.named source parent name filled listed bare directory named, ?_⟩
  · rwa [onTop]
  · rwa [onTop]
  · intro e he
    rcases (t.mem_move_iff_of_bare source _ filled (by simp) n listed bare e).mp he with
      ⟨kept, -⟩ | ⟨rest, kept, -⟩
    · exact sound.texts e kept
    · exact sound.texts (source ++ rest, e.2) kept

end

include sound in
theorem write (l : Location) (old new : ByteArray) (found : t.get? l = some (.file old)) :
    (t.insert l (.file new)).IsSound := by
  have there : t.contains l = true := (t.contains_iff l).mpr ⟨_, found⟩
  rcases List.eq_nil_or_concat' l with rfl | ⟨parent, name, rfl⟩
  · cases found
  · have vacant : t.isDirectory (parent ++ [name]) = false := by
      rw [isDirectory, found]
      rfl
    exact sound.insert parent name _ (t.isDirectory_of_contains sound.closed parent name there)
      (forall_names_of_contains sound.named _ there name (by simp)) vacant trivial

include sound in
theorem erase (l : Location) (vacant : t.isDirectory l = false) : (t.erase l).IsSound := by
  have kept : ∀ e ∈ (t.erase l).entries, e ∈ t.entries := fun e he => (List.mem_filter.mp he).1
  exact ⟨sound.closed.erase l vacant, fun e he => sound.named e (kept e he),
    fun e he => sound.texts e (kept e he)⟩

end IsSound
end FileTree

namespace Place

open FileTree

variable {t : FileTree} {follow : Bool}

theorem isEntryName_of_walk (sound : t.IsSound) (links : Nat) (at_ parent : Location)
    (name : String) (segments : List String)
    (spelled : ∀ s ∈ segments, '/' ∉ s.toList ∧ '\x00' ∉ s.toList)
    (h : walk t follow links at_ segments = .ok (.free parent name)) : IsEntryName name := by
  induction links using Nat.strongRecOn generalizing at_ segments with
  | _ links fewerLinks =>
    induction segments generalizing at_ with
    | nil => cases links <;> cases h
    | cons s rest ih =>
      obtain ⟨first, others⟩ := List.forall_mem_cons.mp spelled
      rw [walk_cons] at h
      split at h
      · cases h
      split at h
      · exact ih _ others h
      rename_i moves
      split at h
      · exact ih _ others h
      rename_i notUp
      split at h
      · cases h
      split at h
      · split at h
        · cases h
          have filled : name ≠ "" ∧ name ≠ "." := by simpa [Path.isIdle] using moves
          exact ⟨filled.1, filled.2, notUp, first.1, first.2⟩
        · cases h
      · rename_i target found
        split at h
        · cases h
        · split at h
          · cases h
          · refine fewerLinks _ (Nat.lt_succ_self _) _ _ ?_ h
            have noZero : '\x00' ∉ target.toList := sound.hasNoZero_of_get? _ _ found
            intro x hx
            rcases List.mem_append.mp hx with hx | hx
            · obtain ⟨noSlash, within⟩ := Path.mem_of_mem_ofText target x hx
              exact ⟨noSlash, fun zero => noZero (within _ zero)⟩
            · exact others x hx
      · exact ih _ others h

theorem isEntryName_of_ofPath (sound : t.IsSound) {p : Path} (plain : p.IsPlain)
    {parent : Location} {name : String} (h : ofPath t follow p = .ok (.free parent name)) :
    IsEntryName name := by
  have asked := checkText_of_ofPath h
  unfold ofPath at h
  simp only [asked, bind, Except.bind] at h
  refine isEntryName_of_walk sound maxLinks [] parent name p.segments ?_ h
  intro s hs
  refine ⟨plain s hs, fun zero => ((checkText_eq_ok_iff p).mp asked).1 ?_⟩
  exact (Path.mem_text_iff p _ (by decide)).mpr ⟨s, hs, zero⟩

end Place

variable {fs fs' : FileSystem}

theorem FileSystem.isSound_add (sound : fs.tree.IsSound) (parent : Location) (name : String)
    (n : Node) (directory : fs.tree.isDirectory parent = true) (named : IsEntryName name)
    (free : fs.tree.get? (parent ++ [name]) = none) (text : n.HasNoZero) :
    (fs.add parent name n).tree.IsSound := by
  refine sound.insert parent name n directory named ?_ text
  rw [FileTree.isDirectory, free]
  rfl

theorem Call.isSound_of_perform (call : Call) (sound : fs.tree.IsSound)
    (plain : ∀ p ∈ call.paths, p.IsPlain) (h : call.perform fs = .ok fs') :
    fs'.tree.IsSound := by
  have named : ∀ {p last}, p ∈ call.paths → LastName.ofPath fs.tree p = .ok (some last) →
      fs.tree.isDirectory last.parent = true ∧ IsEntryName last.name := by
    intro p last hp found
    obtain ⟨front, slashes, ends⟩ := LastName.exists_ends found
    exact ⟨ends.directory, (LastName.isLegalName_of_ofPath (plain p hp) found).1⟩
  cases call with
  | createDirectory p =>
    obtain ⟨last, found, free, rfl⟩ := FileSystem.lastName_of_createDirectory h
    obtain ⟨directory, name⟩ := named (by simp [paths]) found
    exact FileSystem.isSound_add sound _ _ _ directory name free trivial
  | createFile p =>
    obtain ⟨last, found, -, free, rfl⟩ := FileSystem.lastName_of_createFile h
    obtain ⟨directory, name⟩ := named (by simp [paths]) found
    exact FileSystem.isSound_add sound _ _ _ directory name free trivial
  | write p content =>
    rcases FileSystem.write_cases p content h with
      ⟨parent, name, reached, rfl⟩ | ⟨m, old, -, found, tree⟩
    · obtain ⟨directory, free⟩ := Place.free_of_ofPath p parent name reached
      exact FileSystem.isSound_add sound parent name _ directory
        (Place.isEntryName_of_ofPath sound (plain p (by simp [paths])) reached) free trivial
    · rw [tree]
      exact sound.write m old content found
  | rename source target =>
    obtain ⟨old, new, n, hold, hnew, hn⟩ := FileSystem.names_of_rename h
    obtain ⟨-, within, -⟩ := FileSystem.guards_of_rename hold hnew hn h
    rcases FileSystem.moves_of_rename hold hnew hn h with ⟨-, rfl⟩ | ⟨-, empty, moved⟩
    · exact sound
    · obtain ⟨directory, name⟩ := named (by simp [paths]) hnew
      rw [moved]
      refine sound.move new.parent new.name n directory name old.location
        (by simp [LastName.location]) hn empty ?_
      rwa [← List.isPrefixOf_iff_prefix, Bool.not_eq_true]
  | removeFile p =>
    obtain ⟨last, n, -, found, noDirectory, tree⟩ := FileSystem.lastName_of_removeFile h
    rw [tree]
    refine sound.erase _ ?_
    rw [FileTree.isDirectory, found]
    exact noDirectory

namespace FileSystem

/-- Calls with paths that are spelled without slashes in their segments, one after the other. -/
abbrev Changes : FileSystem → FileSystem → Prop :=
  Relation.ReflTransGen fun fs fs' =>
    ∃ call : Call, (∀ p ∈ call.paths, p.IsPlain) ∧ call.perform fs = .ok fs'

theorem Changes.isSound (h : Changes fs fs') (sound : fs.tree.IsSound) : fs'.tree.IsSound := by
  induction h with
  | refl => exact sound
  | tail _ last ih =>
    obtain ⟨call, plain, done⟩ := last
    exact call.isSound_of_perform ih plain done

theorem Changes.isProper (h : Changes fs fs') (proper : fs.tree.IsProper) :
    fs'.tree.IsProper := by
  induction h with
  | refl => exact proper
  | tail _ last ih =>
    obtain ⟨call, plain, done⟩ := last
    exact call.isProper_of_perform ih plain done

theorem changes_of_perform (call : Call) (plain : ∀ p ∈ call.paths, p.IsPlain)
    (h : call.perform fs = .ok fs') : Changes fs fs' :=
  .single ⟨call, plain, h⟩

theorem changes_of_single (call : Call) {p : Path} (only : call.paths = [p]) (plain : p.IsPlain)
    (h : call.perform fs = .ok fs') : Changes fs fs' :=
  changes_of_perform call (by simpa [only] using plain) h

theorem changes_createAll (fs : FileSystem) {p : Path} (plain : p.IsPlain) :
    Changes fs (fs.createAll p).1 := by
  refine createAllUpTo_of_steps fs (fun p fs' => p.IsPlain → Changes fs fs') (fun _ _ => .refl)
    ?_ ?_ (p.depth + 1) p plain
  · intro p q fs' parent above plain
    exact above (plain.parent? parent)
  · intro p fs₁ fs' done created plain
    exact (done plain).trans (changes_of_single (.createDirectory p) rfl plain created)

theorem copyFile_cases {source target : Path} (h : fs.copyFile source target = .ok fs') :
    ∃ content fs₁, fs.write target .empty = .ok fs₁ ∧
      (fs' = fs₁ ∨ fs₁.write target content = .ok fs') := by
  unfold copyFile at h
  simp only [bind, Except.bind] at h
  split at h
  · cases h
  split at h
  · rename_i content _
    split at h
    · cases h
    rename_i fs₁ emptied
    split at h
    · cases h
      exact ⟨content, _, emptied, .inl rfl⟩
    · exact ⟨content, fs₁, emptied, .inr h⟩
  · cases h

theorem changes_copyFile {source target : Path} (plain : target.IsPlain)
    (h : fs.copyFile source target = .ok fs') : Changes fs fs' := by
  obtain ⟨content, fs₁, emptied, rfl | written⟩ := copyFile_cases h
  · exact changes_of_single (.write target .empty) rfl plain emptied
  · exact (changes_of_single (.write target .empty) rfl plain emptied).trans
      (changes_of_single (.write target content) rfl plain written)

end FileSystem
end SimpleFiles
