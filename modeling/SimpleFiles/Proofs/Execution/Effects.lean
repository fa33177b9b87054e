import SimpleFiles.Evaluation
import SimpleFiles.Proofs.Execution.Refusals

/-! What an execution leaves as it was. An execution that is refused touches nothing, and one
that completes changes of the memory only what is stored under the name of its instruction. -/
namespace SimpleFiles

/-- A call on the file system failed, not a check that comes before all calls. -/
def ExecutionError.isOfCall : ExecutionError → Bool
  | .files .. | .renameFailed .. => true
  | _ => false

/-- Files may be touched on the way to such an outcome. -/
def Outcome.mayTouch : Outcome → Bool
  | .completed => true
  | .skipped _ => false
  | .failed (.execution e) => e.isOfCall
  | .failed (.undefinedInstruction _) | .failed (.undefinedCondition _) => false

def Action.storesResult : Action → Bool
  | .createFile | .createFolder | .group => true
  | .rename | .unsupported _ => false

section
variable (fs fs' : FileSystem) (dir : Path) (memory : Memory) (declared : Instruction)
  (condition : Option Condition) (e : ExecutionError)

theorem Create.eq_or_isOfCall_of_run (kind : Create.Kind)
    (h : Create.run fs dir memory kind declared condition = (fs', .error e)) :
    fs' = fs ∨ e.isOfCall = true := by
  unfold Create.run at h
  split at h
  · cases h
    exact .inl rfl
  · obtain ⟨attempt, cause, rfl⟩ := perform_error _ _ _ _ _ h
    exact .inr rfl

theorem Group.eq_or_isOfCall_of_run
    (h : Group.run fs dir memory declared condition = (fs', .error e)) :
    fs' = fs ∨ e.isOfCall = true := by
  unfold Group.run at h
  split at h
  · cases h
    exact .inl rfl
  · obtain ⟨attempt, cause, rfl⟩ := perform_error _ _ _ _ _ h
    exact .inr rfl

theorem Rename.eq_or_isOfCall_of_run
    (h : Rename.run fs dir memory declared condition = (fs', .error e)) :
    fs' = fs ∨ e.isOfCall = true := by
  unfold Rename.run at h
  split at h
  · cases h
    exact .inl rfl
  · obtain ⟨path, cause, rfl⟩ := renameEach_error _ _ _ _ _ h
    exact .inr rfl

namespace Execution

theorem eq_or_isOfCall_of_act
    (h : act fs dir memory declared condition = (fs', .error e)) :
    fs' = fs ∨ e.isOfCall = true := by
  unfold act at h
  split at h
  · exact Create.eq_or_isOfCall_of_run _ _ _ _ _ _ _ .file (eq_of_map_error _ _ _ _ h)
  · exact Create.eq_or_isOfCall_of_run _ _ _ _ _ _ _ .folder (eq_of_map_error _ _ _ _ h)
  · exact Group.eq_or_isOfCall_of_run _ _ _ _ _ _ _ (eq_of_map_error _ _ _ _ h)
  · exact Rename.eq_or_isOfCall_of_run _ _ _ _ _ _ _ (eq_of_map_error _ _ _ _ h)
  · cases h
    exact .inl rfl

theorem eq_or_isOfCall_of_run
    (h : run fs dir memory declared condition = (fs', .error e)) :
    fs' = fs ∨ e.isOfCall = true :=
  eq_or_isOfCall_of_act fs fs' dir memory declared condition e (eq_of_map_error _ _ _ _ h)

theorem storesResult_of_act (result : Option ResultSet)
    (h : act fs dir memory declared condition = (fs', .ok result)) :
    result.isSome = declared.action.storesResult := by
  unfold act at h
  split at h
  · rename_i action
    obtain ⟨stored, -, rfl⟩ := exists_of_map_ok _ _ _ _ h
    rw [action]
    rfl
  · rename_i action
    obtain ⟨stored, -, rfl⟩ := exists_of_map_ok _ _ _ _ h
    rw [action]
    rfl
  · rename_i action
    obtain ⟨stored, -, rfl⟩ := exists_of_map_ok _ _ _ _ h
    rw [action]
    rfl
  · rename_i action
    obtain ⟨-, -, rfl⟩ := exists_of_map_ok _ _ _ _ h
    rw [action]
    rfl
  · cases h

/-- What a completed run makes of the memory: an action that stores its result does so under
the name of the instruction, and any other changes nothing. -/
theorem memory_of_run (memory' : Memory)
    (h : run fs dir memory declared condition = (fs', .ok memory')) :
    (declared.action.storesResult = true ∧
        ∃ result, memory' = memory.store declared.name result) ∨
      declared.action.storesResult = false ∧ memory' = memory := by
  obtain ⟨result, acted, rfl⟩ := exists_of_map_ok _ _ _ _ h
  rw [← storesResult_of_act _ _ _ _ _ _ _ acted]
  cases result with
  | none => exact .inr ⟨rfl, rfl⟩
  | some result => exact .inl ⟨rfl, result, rfl⟩

theorem act_group (action : declared.action = .group) :
    act fs dir memory declared condition =
      (Group.run fs dir memory declared condition).map id (·.map some) := by
  rw [act, action]

theorem run_storing_iff (acted : FileSystem × Except ExecutionError ResultSet)
    (acts : act fs dir memory declared condition = acted.map id (·.map some)) (memory' : Memory) :
    run fs dir memory declared condition = (fs', .ok memory') ↔
      ∃ result, acted = (fs', .ok result) ∧ memory' = memory.store declared.name result := by
  rw [run, acts]
  constructor
  · intro h
    obtain ⟨_, mapped, rfl⟩ := exists_of_map_ok _ _ _ _ h
    obtain ⟨result, done, rfl⟩ := exists_of_map_ok _ _ _ _ mapped
    exact ⟨result, done, rfl⟩
  · rintro ⟨result, rfl, rfl⟩
    rfl

theorem run_rename (action : declared.action = .rename) :
    run fs dir memory declared condition =
      (Rename.run fs dir memory declared condition).map id (·.map fun () => memory) := by
  rw [run, act, action]
  rcases Rename.run fs dir memory declared condition with ⟨fs', _ | _⟩
  · rfl
  · rfl

end Execution
end

namespace State

variable (s : State) (dir : Path) (name : String) (condition : Option String)

theorem execute_cases :
    (∃ outcome, s.execute dir name condition = (s, outcome) ∧ outcome ≠ .completed) ∨
      ∃ declared found files, s.declared.instructions.find? name = some declared ∧
        ((∃ memory, Execution.run s.files dir s.memory declared found = (files, .ok memory) ∧
            s.execute dir name condition = ({ s with files, memory }, .completed)) ∨
          ∃ e, Execution.run s.files dir s.memory declared found = (files, .error e) ∧
            s.execute dir name condition = ({ s with files }, .failed (.execution e))) := by
  unfold execute
  split
  · exact .inl ⟨_, rfl, nofun⟩
  · rename_i declared found
    split
    · exact .inl ⟨_, rfl, nofun⟩
    · split
      · exact .inl ⟨_, rfl, nofun⟩
      · split
        · rename_i files memory completed
          exact .inr ⟨declared, _, files, found, .inl ⟨memory, completed, rfl⟩⟩
        · rename_i files e failed
          exact .inr ⟨declared, _, files, found, .inr ⟨e, failed, rfl⟩⟩

theorem exists_of_step_assign (s' : State) (key value : String) (span : Span)
    (outcome : Option Outcome) (h : s.step dir (.assign key value span) = .ok (s', outcome)) :
    ∃ env, s' = { s with memory.env := env } := by
  rw [step, Memory.assign] at h
  cases assigned : s.memory.env.assign key value with
  | error e =>
    rw [assigned] at h
    cases h
  | ok env =>
    rw [assigned] at h
    cases h
    exact ⟨env, rfl⟩

/-- An execution that ends in anything but completion or a failed call leaves everything as
it was: every check of every action comes before its first call. -/
theorem execute_eq_self_of_untouched (h : (s.execute dir name condition).2.mayTouch = false) :
    (s.execute dir name condition).1 = s := by
  rcases s.execute_cases dir name condition with ⟨outcome, same, -⟩ |
    ⟨declared, found, files, -, ⟨memory, -, completed⟩ | ⟨e, failed, after⟩⟩
  · rw [same]
  · rw [completed] at h
    cases h
  · rw [after] at h ⊢
    rcases Execution.eq_or_isOfCall_of_run _ _ _ _ _ _ _ failed with rfl | called
    · rfl
    · rw [show (Outcome.failed (.execution e)).mayTouch = e.isOfCall from rfl, called] at h
      cases h

/-- A folder is to be made in one that is missing, and the name that a condition gives it may
not be that of a folder. -/
def dotted : State where
  declared := {
    instructions := NameTable.empty.insert "make"
      ⟨"make", .createFolder, [⟨"name", "docs", .zero⟩, ⟨"path", "new", .zero⟩], .zero⟩
    conditions := NameTable.empty.insert "named" ⟨"named", [⟨"Name", "a.b", .zero⟩], .zero⟩ }
  files := { clock := ⟨2024, 1, 1, 0, 0, 0⟩ }

theorem execute_eq_self_dotted :
    (dotted.execute (.ofText "/") "make" (some "named")).2 =
        .failed (.execution (.refused "make" (.dotInFolderName "a.b"))) ∧
      (dotted.execute (.ofText "/") "make" (some "named")).1 = dotted := by
  have refused : (dotted.execute (.ofText "/") "make" (some "named")).2 =
      .failed (.execution (.refused "make" (.dotInFolderName "a.b"))) := by
    decide +kernel
  exact ⟨refused, execute_eq_self_of_untouched _ _ _ _ (by rw [refused]; rfl)⟩

/-- What an execution may change of the memory: no variable, and of the results only the one
under the name of the instruction, when the execution completes and the action stores its
result. A failure, a skip or a rename changes nothing. -/
theorem memory_of_execute :
    let (after, outcome) := s.execute dir name condition
    after.memory.env = s.memory.env ∧
      (∀ other, after.memory.results.find? other ≠ s.memory.results.find? other →
        outcome = .completed ∧ ∃ declared, s.declared.instructions.find? name = some declared ∧
          declared.action.storesResult = true ∧ other = declared.name) ∧
      (outcome ≠ .completed ∨ (∃ declared, s.declared.instructions.find? name = some declared ∧
          declared.action = .rename) → after.memory = s.memory) := by
  rcases s.execute_cases dir name condition with ⟨outcome, same, -⟩ |
    ⟨declared, found, files, hd, ⟨memory, completed, after⟩ | ⟨e, -, after⟩⟩
  · rw [same]
    exact ⟨rfl, fun _ differs => absurd rfl differs, fun _ => rfl⟩
  · rw [after]
    rcases Execution.memory_of_run _ _ _ _ _ _ _ completed with
      ⟨stores, result, rfl⟩ | ⟨-, rfl⟩
    · refine ⟨rfl, ?_, ?_⟩
      · intro other differs
        refine ⟨rfl, declared, hd, stores, Decidable.byContradiction fun elsewhere => differs ?_⟩
        simp [Memory.store, NameTable.find?_insert, elsewhere]
      · rintro (failed | ⟨other, hother, action⟩)
        · exact absurd rfl failed
        · rw [hd, Option.some.injEq] at hother
          rw [hother, action] at stores
          cases stores
    · exact ⟨rfl, fun _ differs => absurd rfl differs, fun _ => rfl⟩
  · rw [after]
    exact ⟨rfl, fun _ differs => absurd rfl differs, fun _ => rfl⟩

end State
end SimpleFiles
