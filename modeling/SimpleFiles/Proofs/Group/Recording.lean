import SimpleFiles.Proofs.FileSystem.Displacing
import SimpleFiles.Proofs.Group.Copying
import SimpleFiles.Proofs.Path.Components

/-! Where the entries are that a group records. A destination is there after its own transfer,
and stays there unless a later transfer moves what it is reached by, or it itself. -/
namespace SimpleFiles.Group

open FileTree FileSystem

variable {fs fs' : FileSystem} {mode : GroupMode} {entry target p : Path} {isDone : Bool}

structure Transferable (entry target : Path) : Prop where
  source : entry.IsPlain
  arrives : target.IsPlain
  named : target.EndsInName

section
variable {base output : Path} {names : List String}

theorem extends_destination (source : base.IsRooted) (rooted : output.IsRooted)
    (filled : names ≠ []) (h : base.Extends names entry) :
    output.Extends names (destination entry base output) ∧
      (destination entry base output).EndsInName := by
  obtain ⟨relative, found, -⟩ := entry.exists_relativeTo? base _ (h.components source.absolute)
  obtain ⟨rest, split, ⟨none, -⟩ | ⟨-, spelled, plain, inner, steps⟩⟩ :=
    h.relativeTo? source.self source.absolute found
  · rw [none, List.append_nil] at split
    exact absurd split filled
  rw [List.nil_append] at split
  subst split
  have visible : relative.segments ≠ [""] := by
    intro empty
    rw [empty] at steps
    exact filled steps.symm
  have text : relative.text ≠ "" := by
    rw [Ne, Path.text_eq_empty_iff]
    rintro (none | empty)
    · exact spelled none
    · exact visible empty
  have ends := Path.endsInName_relativeTo? entry base relative source.absolute found visible
    inner.down
  have extended := rooted.self.join relative spelled plain inner
  rw [steps] at extended
  unfold destination
  simp only [found, if_neg text]
  exact ⟨extended, ends.join output⟩

theorem transferable_destination (source : base.IsRooted) (rooted : output.IsRooted)
    (below : entry.IsBelow base) : Transferable entry (destination entry base output) := by
  obtain ⟨names, filled, extended⟩ := below
  obtain ⟨further, named⟩ := extends_destination source rooted filled extended
  exact ⟨extended.plain, further.plain, named⟩

end

theorem changes_makeParent (fs : FileSystem) (plain : target.IsPlain) :
    Changes fs (makeParent fs target).1 := by
  rcases makeParent_cases fs target with same | ⟨parent, found, made⟩
  · rw [same]
  · rw [made]
    exact changes_createAll fs (plain.parent? found)

theorem changes_moveEntry (paths : Transferable entry target)
    (h : moveEntry fs entry target = (fs', isDone)) : Changes fs fs' := by
  rcases moveEntry_cases h with
    ⟨-, moved⟩ | ⟨fs₁, copied, ⟨-, removed⟩ | ⟨-, rfl⟩⟩ | ⟨-, rfl⟩
  · exact changes_of_perform (.rename entry target)
      (by simp [Call.paths, paths.source, paths.arrives]) moved
  · exact (changes_copyFile paths.arrives copied).trans
      (changes_of_single (.removeFile entry) rfl paths.source removed)
  · exact changes_copyFile paths.arrives copied
  · exact .refl

theorem changes_transfer (paths : Transferable entry target)
    (h : transfer mode fs entry target = (fs', isDone)) : Changes fs fs' := by
  have made := changes_makeParent fs paths.arrives
  rcases transfer_cases h with
    ⟨-, rfl | rfl⟩ | ⟨-, -, -, rfl⟩ | ⟨-, ⟨-, moved⟩ | ⟨-, copied⟩⟩
  · exact .refl
  · exact made
  · exact .refl
  · exact made.trans (changes_moveEntry paths moved)
  · rcases copyEntry_cases copied with ⟨_, created, -⟩ | ⟨-, copied⟩ | ⟨-, rfl⟩
    · have further := changes_createAll (makeParent fs target).1 paths.arrives
      rw [created] at further
      exact made.trans further
    · exact made.trans (changes_copyFile paths.arrives copied)
    · exact made

theorem changes_transferEach (mode : GroupMode) (base output : Path) (fs : FileSystem)
    (entries : List Path)
    (paths : ∀ entry ∈ entries, Transferable entry (destination entry base output)) :
    Changes fs (transferEach mode base output fs entries).1 := by
  induction entries generalizing fs with
  | nil => exact .refl
  | cons entry rest ih =>
    obtain ⟨first, others⟩ := List.forall_mem_cons.mp paths
    rw [transferEach_cons]
    exact (changes_transfer first rfl).trans (ih _ others)

section
variable (sound : fs.tree.IsSound) (paths : Transferable entry target)

include sound paths in
theorem holds_of_moveEntry (h : moveEntry fs entry target = (fs', isDone))
    (there : fs.tree.Holds p) :
    fs'.tree.Holds p ∨ isDone = true ∧ fs.Displaces entry target p := by
  rcases moveEntry_cases h with ⟨rfl, moved⟩ | ⟨fs₁, copied, left⟩ | ⟨-, rfl⟩
  · obtain ⟨l, hl, contained⟩ := there
    exact (holds_of_rename sound.closed moved l hl (.inl contained)).imp_right (⟨rfl, ·⟩)
  · have grown := (copyFile_grows entry target copied).2
    have still := there.grows grown
    obtain ⟨l, hl, -⟩ := there
    rcases left with ⟨rfl, removed⟩ | ⟨-, rfl⟩
    · have contained := still.contains l (LastName.location?_of_grows grown l hl)
      exact (holds_of_removeFile sound.closed paths.source paths.arrives paths.named copied removed l
        hl contained).imp_right (⟨rfl, ·⟩)
    · exact .inl still
  · exact .inl there

include sound paths in
theorem holds_target_of_moveEntry (h : moveEntry fs entry target = (fs', true)) :
    fs'.tree.Holds target ∨ fs.Displaces entry target target := by
  rcases moveEntry_cases h with ⟨-, moved⟩ | ⟨fs₁, copied, ⟨-, removed⟩ | ⟨none, -⟩⟩ | ⟨none, -⟩
  · obtain ⟨_, goal, _, _, hnew, -⟩ := names_of_rename moved
    have hl := LastName.location?_of_ofPath hnew
    exact holds_of_rename sound.closed moved _ hl (.inr hl)
  · have grown := (copyFile_grows entry target copied).2
    obtain ⟨m, located⟩ := exists_locate_of_copyFile copied
    have there := holds_of_locate paths.arrives paths.named located
    obtain ⟨content, fs₂, emptied, -⟩ := copyFile_cases copied
    obtain ⟨goal, before⟩ :=
      exists_location_of_write sound.closed paths.arrives paths.named .empty emptied
    have contained := there.contains goal (LastName.location?_of_grows grown goal before)
    exact holds_of_removeFile sound.closed paths.source paths.arrives paths.named copied removed
      goal before contained
  · cases none
  · cases none

include sound paths in
theorem holds_of_transfer (h : transfer mode fs entry target = (fs', isDone))
    (there : fs.tree.Holds p) :
    fs'.tree.Holds p ∨
      mode = .move ∧ isDone = true ∧ (makeParent fs target).1.Displaces entry target p := by
  have made := there.grows (makeParent_grows (fun _ => False) fs target)
  have sound₁ := (changes_makeParent fs paths.arrives).isSound sound
  rcases transfer_cases h with
    ⟨-, rfl | rfl⟩ | ⟨-, -, -, rfl⟩ | ⟨-, ⟨rfl, moved⟩ | ⟨rfl, copied⟩⟩
  · exact .inl there
  · exact .inl made
  · exact .inl there
  · exact (holds_of_moveEntry sound₁ paths moved made).imp_right (⟨rfl, ·⟩)
  · have grown := copyEntry_grows (makeParent fs target).1 entry target
    rw [copied] at grown
    exact .inl (made.grows grown)

include sound paths in
/-- A destination that is not too long a path is there after its transfer, unless that is a move
that displaces it. -/
theorem holds_target_of_transfer (h : transfer mode fs entry target = (fs', true))
    (short : target.text.utf8ByteSize < Place.maxPathSize) :
    fs'.tree.Holds target ∨
      mode = .move ∧ (makeParent fs target).1.Displaces entry target target := by
  have sound₁ := (changes_makeParent fs paths.arrives).isSound sound
  rcases transfer_cases h with
    ⟨none, -⟩ | ⟨-, there, same, rfl⟩ | ⟨-, ⟨rfl, moved⟩ | ⟨rfl, copied⟩⟩
  · cases none
  · obtain ⟨l, located⟩ := exists_locate_of_pathExists _ entry there
    have same' : target.same entry = true := same
    exact .inl (holds_of_locate paths.arrives paths.named
      (Place.locate_of_same same' paths.named short located))
  · exact (holds_target_of_moveEntry sound₁ paths moved).imp_right (⟨rfl, ·⟩)
  · left
    rcases copyEntry_cases copied with ⟨_, created, ok⟩ | ⟨-, copied⟩ | ⟨none, -⟩
    · have directory := isDirectory_of_createAll paths.named.ne_empty (ok rfl ▸ created)
      obtain ⟨l, located, -⟩ := exists_locate_of_isDirectory _ target directory
      exact holds_of_locate paths.arrives paths.named located
    · obtain ⟨l, located⟩ := exists_locate_of_copyFile copied
      exact holds_of_locate paths.arrives paths.named located
    · cases none

end

/-- An entry is moved, when its turn comes, off the way of a path. -/
def DisplacedBy (base output : Path) (fs : FileSystem) (before : List Path) (entry p : Path) :
    Prop :=
  let fs₁ := (transferEach .move base output fs before).1
  let target := destination entry base output
  (transfer .move fs₁ entry target).2 = true ∧ (makeParent fs₁ target).1.Displaces entry target p

theorem DisplacedBy.cons {base output : Path} {before : List Path} {other : Path}
    {fs₁ : FileSystem} (h : DisplacedBy base output fs₁ before other p)
    (first : (transfer .move fs entry (destination entry base output)).1 = fs₁) :
    DisplacedBy base output fs (entry :: before) other p := by
  subst first
  exact h

/-- One of the entries is moved off the way of a path that is recorded by then. -/
def IsLost (base output : Path) (fs : FileSystem) (entries : List Path) (p : Path) : Prop :=
  ∃ before entry after, entries = before ++ entry :: after ∧
    p ∈ (transferEach .move base output fs (before ++ [entry])).2 ∧
    DisplacedBy base output fs before entry p

section
variable {base output : Path}

theorem holds_of_transferEach (entries : List Path) (sound : fs.tree.IsSound)
    (paths : ∀ entry ∈ entries, Transferable entry (destination entry base output))
    (there : fs.tree.Holds p) :
    (transferEach mode base output fs entries).1.tree.Holds p ∨
      mode = .move ∧ ∃ before entry after, entries = before ++ entry :: after ∧
        DisplacedBy base output fs before entry p := by
  induction entries generalizing fs with
  | nil => exact .inl there
  | cons entry rest ih =>
    obtain ⟨first, others⟩ := List.forall_mem_cons.mp paths
    rw [transferEach_cons]
    cases done : transfer mode fs entry (destination entry base output) with
    | mk fs₁ isDone =>
      rcases holds_of_transfer sound first done there with still | ⟨rfl, rfl, displaced⟩
      · refine (ih ((changes_transfer first done).isSound sound) others still).imp_right ?_
        rintro ⟨rfl, before, other, after, rfl, moved⟩
        exact ⟨rfl, entry :: before, other, after, rfl, moved.cons (by rw [done])⟩
      · exact .inr ⟨rfl, [], entry, rest, rfl, congrArg Prod.snd done, displaced⟩

theorem exists_of_recorded (entries : List Path) (fs : FileSystem) :
    ∀ target ∈ (transferEach mode base output fs entries).2,
      ∃ entry ∈ entries, target = destination entry base output := by
  induction entries generalizing fs with
  | nil => exact nofun
  | cons entry rest ih =>
    have later : ∀ fs₁, ∀ target ∈ (transferEach mode base output fs₁ rest).2,
        ∃ other ∈ entry :: rest, target = destination other base output := by
      intro fs₁ target listed
      obtain ⟨other, member, rfl⟩ := ih fs₁ target listed
      exact ⟨other, List.mem_cons_of_mem _ member, rfl⟩
    rw [transferEach_cons]
    intro target listed
    simp only at listed
    split at listed
    · rcases List.mem_cons.mp listed with rfl | listed
      · exact ⟨entry, List.mem_cons_self .., rfl⟩
      · exact later _ target listed
    · exact later _ target listed

/-- A destination that is recorded, and not too long a path, names an entry after all transfers,
unless one of the entries is moved off its way once it is recorded. -/
theorem holds_of_recorded (entries : List Path) (sound : fs.tree.IsSound)
    (paths : ∀ entry ∈ entries, Transferable entry (destination entry base output)) :
    ∀ target ∈ (transferEach mode base output fs entries).2,
      target.text.utf8ByteSize < Place.maxPathSize →
      (transferEach mode base output fs entries).1.tree.Holds target ∨
        mode = .move ∧ IsLost base output fs entries target := by
  induction entries generalizing fs with
  | nil => exact nofun
  | cons entry rest ih =>
    obtain ⟨first, others⟩ := List.forall_mem_cons.mp paths
    rw [transferEach_cons]
    cases done : transfer mode fs entry (destination entry base output) with
    | mk fs₁ isDone =>
      have sound₁ := (changes_transfer first done).isSound sound
      have later : ∀ target ∈ (transferEach mode base output fs₁ rest).2,
          target.text.utf8ByteSize < Place.maxPathSize →
            (transferEach mode base output fs₁ rest).1.tree.Holds target ∨
              mode = .move ∧ IsLost base output fs (entry :: rest) target := by
        intro target listed short
        refine (ih sound₁ others target listed short).imp_right ?_
        rintro ⟨rfl, before, other, after, rfl, recorded, moved⟩
        refine ⟨rfl, entry :: before, other, after, rfl, ?_, ?_⟩
        · rw [List.cons_append, transferEach_cons, done]
          cases isDone with
          | true => exact List.mem_cons_of_mem _ recorded
          | false => exact recorded
        · exact moved.cons (by rw [done])
      intro target listed short
      cases isDone with
      | false => exact later target listed short
      | true =>
        rcases List.mem_cons.mp listed with rfl | listed
        · rcases holds_target_of_transfer sound first done short with there | ⟨rfl, displaced⟩
          · refine (holds_of_transferEach rest sound₁ others there).imp_right ?_
            rintro ⟨rfl, before, other, after, rfl, moved⟩
            refine ⟨rfl, entry :: before, other, after, rfl, ?_, moved.cons (by rw [done])⟩
            rw [List.cons_append, transferEach_cons, done]
            exact List.mem_cons_self ..
          · refine ⟨rfl, [], entry, rest, rfl, ?_, congrArg Prod.snd done, displaced⟩ |> .inr
            rw [List.nil_append, transferEach_cons, done]
            exact List.mem_cons_self ..
        · exact later target listed short

end
end SimpleFiles.Group
