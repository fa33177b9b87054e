import SimpleFiles.Proofs.Create.Adding
import SimpleFiles.Proofs.Execution.Effects
import SimpleFiles.Proofs.Group.Confinement
import SimpleFiles.Proofs.Group.Recording
import SimpleFiles.Proofs.Rename.Confinement

/-! All that an execution does is made of calls, also when it fails on the way, so a sound tree
stays sound. The paths of stored results can be called with, as they lie below their bases. -/
namespace SimpleFiles

/-- The entries of a result lie below its base, each by the names of some way down. -/
structure ResultSet.IsFiled (result : ResultSet) : Prop where
  rooted : result.base.IsRooted
  below : ∀ entry ∈ result.entries, entry.IsBelow result.base

def Memory.IsFiled (memory : Memory) : Prop :=
  ∀ name result, memory.results.find? name = some result → result.IsFiled

theorem Memory.IsFiled.store {memory : Memory} (h : memory.IsFiled) (name : String)
    (result : ResultSet) (filed : result.IsFiled) : (memory.store name result).IsFiled := by
  intro other found hother
  rw [Memory.store, NameTable.find?_insert] at hother
  split at hother
  · cases hother
    exact filed
  · exact h other found hother

open FileSystem

namespace Create

variable {fs : FileSystem} {dir target : Path} {kind : Kind} {template : Option Path}
  {memory : Memory} {declared : Instruction} {condition : Option Condition}

variable (kind template) in
theorem changes_createOne (fs : FileSystem) (instruction : String) (plain : target.IsPlain) :
    Changes fs (createOne fs instruction kind template target).1 := by
  rcases createOne_files kind template fs instruction target with
    same | ⟨-, source, copied⟩ | made | made
  · rw [same]
  · exact changes_copyFile plain copied
  · exact changes_of_single (.createFile target) rfl plain made
  · rw [made]
    exact changes_createAll fs plain

variable (kind template) in
theorem changes_createEach (fs : FileSystem) (instruction : String) (targets : List Path)
    (plain : ∀ target ∈ targets, target.IsPlain) :
    Changes fs (createEach instruction kind template fs targets).1 := by
  induction targets generalizing fs with
  | nil => exact .refl
  | cons target rest ih =>
    obtain ⟨first, others⟩ := List.forall_mem_cons.mp plain
    have one := changes_createOne kind template fs instruction first
    rw [createEach]
    split
    · rename_i failed
      rwa [failed] at one
    rename_i fs₁ isNew made
    rw [made] at one
    have later := one.trans (ih fs₁ others)
    split
    · rename_i failed
      rwa [failed] at later
    · rename_i created
      rwa [created] at later

theorem isRooted_output (rooted : dir.IsRooted) (p : Plan)
    (h : plan fs dir memory kind declared condition = .ok p) : p.output.IsRooted := by
  obtain ⟨-, -, -, -, -, same | ⟨raw, -, joined⟩⟩ := plan_cases dir memory declared condition p h
  · rwa [same]
  · rw [joined]
    exact rooted.join_ofText raw

theorem run_changes (rooted : dir.IsRooted) (fs : FileSystem) (memory : Memory) (kind : Kind)
    (declared : Instruction) (condition : Option Condition) :
    Changes fs (run fs dir memory kind declared condition).1 := by
  unfold run
  split
  · exact .refl
  rename_i p planned
  have output := isRooted_output rooted p planned
  have made := changes_createAll fs output.plain
  unfold perform
  split
  · rename_i failed
    rwa [failed] at made
  rename_i fs₁ done
  rw [done] at made
  have plain : ∀ target ∈ p.names.map fun name => p.output.join (.ofText name),
      target.IsPlain := by
    intro target listed
    obtain ⟨name, -, rfl⟩ := List.mem_map.mp listed
    exact (output.join_ofText name).plain
  have later := made.trans (changes_createEach p.kind p.template fs₁ declared.name _ plain)
  split
  · rename_i failed
    rwa [failed] at later
  · rename_i created
    rwa [created] at later

end Create

section
variable {fs : FileSystem} {dir : Path} {memory : Memory} (sound : fs.tree.IsSound)
  (rooted : dir.IsRooted) (filed : memory.IsFiled)

namespace Group

include sound rooted filed in
theorem isFiled_candidates (instruction : String) (params : Parameters) (result : ResultSet)
    (h : candidates fs dir memory instruction params = .ok result) : result.IsFiled := by
  unfold candidates at h
  split at h
  · rename_i own
    cases h
    exact filed _ _ own
  split at h
  · cases h
  rename_i target given
  split at h
  · rename_i stored
    cases h
    exact filed _ _ stored
  simp only at h
  split at h
  · cases h
    have root := rooted.join_ofText target
    exact ⟨root, isBelow_of_walk sound.named root.self⟩
  · cases h

include sound rooted filed in
theorem places_of_plan (declared : Instruction) (condition : Option Condition) (p : Plan)
    (h : plan fs dir memory declared condition = .ok p) :
    p.base.IsRooted ∧ p.output.IsRooted ∧ ∀ entry ∈ p.entries, entry.IsBelow p.base := by
  obtain ⟨params, source, path, -, chosen, -, output, root, kept⟩ :=
    plan_cases memory declared condition p h
  obtain ⟨rootedSource, below⟩ :=
    isFiled_candidates sound rooted filed declared.name params source chosen
  rw [output, root]
  exact ⟨rootedSource, rooted.join_ofText path, fun entry listed => below entry (kept listed)⟩

include sound rooted filed in
theorem transferable_of_plan (declared : Instruction) (condition : Option Condition) (p : Plan)
    (h : plan fs dir memory declared condition = .ok p) :
    ∀ entry ∈ p.entries, Transferable entry (destination entry p.base p.output) := by
  obtain ⟨base, output, below⟩ := places_of_plan sound rooted filed declared condition p h
  exact fun entry listed => transferable_destination base output (below entry listed)

include sound rooted filed in
theorem run_changes (declared : Instruction) (condition : Option Condition) :
    Changes fs (run fs dir memory declared condition).1 := by
  unfold run
  split
  · exact .refl
  rename_i p planned
  obtain ⟨-, output, -⟩ := places_of_plan sound rooted filed declared condition p planned
  have paths := transferable_of_plan sound rooted filed declared condition p planned
  have made := changes_createAll fs output.plain
  unfold perform
  split
  · rename_i failed
    rwa [failed] at made
  · rename_i fs₁ done
    rw [done] at made
    exact made.trans (changes_transferEach p.mode p.base p.output fs₁ p.entries paths)

end Group

namespace Rename

include rooted filed sound in
theorem isBelow_of_plan (declared : Instruction) (condition : Option Condition) (p : Plan)
    (h : plan fs dir memory declared condition = .ok p) :
    ∀ entry ∈ p.entries, ∃ base, entry.IsBelow base := by
  obtain ⟨params, path, entries, -, -, chosen, kept⟩ :=
    plan_cases memory declared condition p h
  have source : (target dir memory path).1.IsRooted ∧
      ∀ result, (target dir memory path).2 = some result → result.IsFiled := by
    unfold target
    split
    · rename_i result named
      refine ⟨(filed _ _ named).rooted, ?_⟩
      rintro _ ⟨⟩
      exact filed _ _ named
    · exact ⟨rooted.join_ofText path, nofun⟩
  obtain ⟨root, chained⟩ := source
  intro entry listed
  have member := kept entry listed
  unfold candidates at chosen
  split at chosen
  · cases chosen
    exact ⟨_, isBelow_of_walk sound.named root.self entry member⟩
  · split at chosen
    · rename_i result stored
      cases chosen
      exact ⟨_, (chained result stored).below entry member⟩
    · exact ⟨_, isBelow_of_children sound.named root.self entries
        (eq_of_mapError_ok _ _ _ chosen) entry member⟩

theorem changes_renameEach (mode : CaseMode) (fs : FileSystem) (sound : fs.tree.IsSound)
    (entries : List Path) (below : ∀ entry ∈ entries, ∃ base, entry.IsBelow base) :
    FileSystem.Changes fs (renameEach mode fs entries).1 := by
  induction entries generalizing fs with
  | nil => exact .refl
  | cons old rest ih =>
    obtain ⟨⟨base, first⟩, others⟩ := List.forall_mem_cons.mp below
    rw [renameEach]
    split
    · exact ih fs sound others
    · rename_i new hnew
      split
      · exact .refl
      · rename_i fs₁ renamed
        have arrives := isBelow_newPath? mode old new sound.named first hnew renamed
        have done : FileSystem.Changes fs fs₁ := changes_of_perform (.rename old new)
          (by simp [Call.paths, first.plain, arrives.plain]) renamed
        exact done.trans (ih fs₁ (done.isSound sound) others)

include rooted filed sound in
theorem run_changes (declared : Instruction) (condition : Option Condition) :
    FileSystem.Changes fs (run fs dir memory declared condition).1 := by
  unfold run
  split
  · exact .refl
  · rename_i p planned
    exact changes_renameEach p.mode fs sound p.entries
      (isBelow_of_plan sound rooted filed declared condition p planned)

end Rename

include rooted filed sound in
theorem Execution.run_changes (declared : Instruction) (condition : Option Condition) :
    Changes fs (run fs dir memory declared condition).1 := by
  have acted : Changes fs (act fs dir memory declared condition).1 := by
    unfold act
    split
    · exact Create.run_changes rooted fs memory .file declared condition
    · exact Create.run_changes rooted fs memory .folder declared condition
    · exact Group.run_changes sound rooted filed declared condition
    · exact Rename.run_changes sound rooted filed declared condition
    · exact .refl
  exact acted

end

/-- What holds of the files and of the memory between two statements. -/
structure State.IsSound (s : State) : Prop where
  files : s.files.tree.IsSound
  filed : s.memory.IsFiled

namespace State

variable {s s' : State} {dir : Path} (sound : s.IsSound) (rooted : dir.IsRooted)

include sound rooted in
theorem execute_changes (name : String) (condition : Option String) :
    Changes s.files (s.execute dir name condition).1.files := by
  rcases s.execute_cases dir name condition with ⟨outcome, same, -⟩ |
    ⟨declared, found, files, -, ⟨memory, ran, after⟩ | ⟨e, ran, after⟩⟩
  · rw [same]
  · have done := Execution.run_changes sound.files rooted sound.filed declared found
    rw [ran] at done
    rwa [after]
  · have done := Execution.run_changes sound.files rooted sound.filed declared found
    rw [ran] at done
    rwa [after]

end State
end SimpleFiles
