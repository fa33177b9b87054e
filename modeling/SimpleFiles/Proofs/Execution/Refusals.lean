import SimpleFiles.Execution

/-! Which refusals an instruction can meet with. Every one is decided from merged
parameters before anything is touched; what fails later is no refusal. -/
namespace SimpleFiles

namespace Refusal

def isIncomplete : Refusal → Bool
  | .unsupportedAction _ | .nameMissing | .noGroupTarget | .noPath | .noMode
  | .noPathOrMode => true
  | _ => false

/-- The count is no integer, or too small. -/
def isCount : Refusal → Bool
  | .countFormat _ | .countTooSmall _ => true
  | _ => false

end Refusal

def ExecutionError.refusal? : ExecutionError → Option Refusal
  | .refused _ cause => some cause
  | _ => none

private theorem mapError_ok {ε ε' α : Type} (f : ε → ε') (a : α) :
    (Except.ok a : Except ε α).mapError f = .ok a := rfl

theorem eq_of_map_error {σ α β ε : Type} (x : σ × Except ε α) (s : σ) (e : ε) (f : α → β)
    (h : x.map id (·.map f) = (s, .error e)) : x = (s, .error e) := by
  obtain ⟨t, result⟩ := x
  cases result with
  | error g => cases h; rfl
  | ok a => cases h

theorem exists_of_map_ok {σ α β ε : Type} (x : σ × Except ε α) (s : σ) (b : β) (f : α → β)
    (h : x.map id (·.map f) = (s, .ok b)) : ∃ a, x = (s, .ok a) ∧ f a = b := by
  obtain ⟨t, result⟩ := x
  cases result with
  | error g => cases h
  | ok a => cases h; exact ⟨a, rfl, rfl⟩

theorem eq_of_mapError_ok {ε ε' α : Type} (x : Except ε α) (f : ε → ε') (a : α)
    (h : x.mapError f = .ok a) : x = .ok a := by
  cases x with
  | error e => cases h
  | ok b => cases h; rfl

def Instruction.merged (declared : Instruction) (work : Work) (condition : Option Condition)
    (memory : Memory) : Except MemoryError Parameters :=
  Parameters.merge work declared.params (condition.map (·.params)) memory.env

namespace Create

theorem count_error (instruction : String) (raw : Option String) (e : ExecutionError)
    (h : count instruction raw = .error e) :
    ∃ text, raw = some text ∧ ∀ n, Text.int32? (Text.trim text) = some n → n < 1 := by
  unfold count at h
  cases raw with
  | none => cases h
  | some text =>
    refine ⟨text, rfl, ?_⟩
    intro n hn
    simp only [hn] at h
    by_cases hlt : n < 1
    · exact hlt
    · rw [if_neg hlt] at h
      cases h

theorem refusal_of_count (instruction : String) (raw : Option String) (e : ExecutionError)
    (h : count instruction raw = .error e) :
    ∃ cause, e.refusal? = some cause ∧ cause.isIncomplete = false := by
  unfold count at h
  cases raw with
  | none => cases h
  | some text =>
    simp only at h
    split at h
    · cases h
      exact ⟨_, rfl, rfl⟩
    · split at h
      · cases h
        exact ⟨_, rfl, rfl⟩
      · cases h

/-- Why there are no names to create: the refusal is about the name file, says that
there is neither a name nor a name file, or comes from the count. -/
theorem names_error (fs : FileSystem) (dir : Path) (instruction : String) (params : Parameters)
    (e : ExecutionError) (h : names fs dir instruction params = .error e) :
    e.refusal? = none ∨ (∃ file, e.refusal? = some (.noNames file)) ∨
    (e.refusal? = some .nameMissing ∧ params.find? "namefile" = none ∧
      params.find? "name" = none) ∨
    count instruction (params.find? "count") = .error e := by
  unfold names at h
  cases hf : params.find? "namefile" with
  | some raw =>
    simp only [hf, namesOfFile] at h
    split at h
    · cases h
      exact .inl rfl
    · split at h
      · cases h
        exact .inr (.inl ⟨_, rfl⟩)
      · cases h
  | none =>
    cases hn : params.find? "name" with
    | none =>
      simp only [hf, hn] at h
      cases h
      exact .inr (.inr (.inl ⟨rfl, rfl, rfl⟩))
    | some template =>
      simp only [hf, hn] at h
      cases hc : count instruction (params.find? "count") with
      | error f =>
        rw [hc] at h
        cases h
        exact .inr (.inr (.inr rfl))
      | ok n =>
        rw [hc] at h
        change (NameTemplate.names template n).mapError (.naming instruction) = .error e at h
        cases hnames : NameTemplate.names template n with
        | ok list =>
          rw [hnames] at h
          cases h
        | error cause =>
          rw [hnames] at h
          cases h
          exact .inl rfl

theorem plan_error (fs : FileSystem) (dir : Path) (memory : Memory) (kind : Kind)
    (declared : Instruction) (condition : Option Condition) (e : ExecutionError)
    (h : plan fs dir memory kind declared condition = .error e) :
    e.refusal? = none ∨ ∃ params, declared.merged .create condition memory = .ok params ∧
      ((∃ name, e.refusal? = some (.dotInFolderName name)) ∨
        names fs dir declared.name params = .error e) := by
  unfold plan at h
  rw [← Instruction.merged] at h
  cases hm : declared.merged .create condition memory with
  | error cause =>
    rw [hm] at h
    cases h
    exact .inl rfl
  | ok params =>
    rw [hm] at h
    simp only [mapError_ok, bind, Except.bind] at h
    cases hn : names fs dir declared.name params with
    | error f =>
      rw [hn] at h
      cases h
      exact .inr ⟨params, rfl, .inr hn⟩
    | ok list =>
      rw [hn] at h
      simp only at h
      split at h
      · split at h
        · cases h
          exact .inr ⟨params, rfl, .inl ⟨_, rfl⟩⟩
        · cases h
      · cases h

theorem createOne_error (fs fs' : FileSystem) (instruction : String) (kind : Kind)
    (template : Option Path) (target : Path) (e : ExecutionError)
    (h : createOne fs instruction kind template target = (fs', .error e)) :
    ∃ attempt cause, e = .files instruction attempt cause := by
  unfold createOne at h
  split at h
  · split at h
    · cases h
    · split at h
      · cases h
      · cases h
        exact ⟨_, _, rfl⟩
  · split at h
    · cases h
    · cases h
    · cases h
      exact ⟨_, _, rfl⟩
  · split at h
    · cases h
    · split at h
      · cases h
      · cases h
        exact ⟨_, _, rfl⟩

theorem createEach_error (instruction : String) (kind : Kind) (template : Option Path)
    (targets : List Path) (fs fs' : FileSystem) (e : ExecutionError)
    (h : createEach instruction kind template fs targets = (fs', .error e)) :
    ∃ attempt cause, e = .files instruction attempt cause := by
  induction targets generalizing fs fs' with
  | nil => cases h
  | cons target rest ih =>
    rw [createEach] at h
    split at h
    · rename_i made
      cases h
      exact createOne_error _ _ _ _ _ _ _ made
    · split at h
      · rename_i others
        cases h
        exact ih _ _ others
      · cases h

theorem perform_error (fs fs' : FileSystem) (instruction : String) (p : Plan)
    (e : ExecutionError) (h : perform fs instruction p = (fs', .error e)) :
    ∃ attempt cause, e = .files instruction attempt cause := by
  unfold perform at h
  split at h
  · cases h
    exact ⟨_, _, rfl⟩
  · split at h
    · rename_i each
      cases h
      exact createEach_error _ _ _ _ _ _ _ each
    · cases h

/-- Creation is refused for want of a name only if there is neither a name nor a name
file, and because of the count only if there is one that is no positive integer. -/
theorem refusal_of_run (fs fs' : FileSystem) (dir : Path) (memory : Memory) (kind : Kind)
    (declared : Instruction) (condition : Option Condition) (e : ExecutionError) (cause : Refusal)
    (h : run fs dir memory kind declared condition = (fs', .error e))
    (hr : e.refusal? = some cause) :
    ∃ params, declared.merged .create condition memory = .ok params ∧
      (cause.isIncomplete = true → params.find? "namefile" = none ∧ params.find? "name" = none) ∧
      (cause.isCount = true → ∃ text, params.find? "count" = some text ∧
        ∀ n, Text.int32? (Text.trim text) = some n → n < 1) := by
  unfold run at h
  split at h
  · rename_i failed
    cases h
    rcases plan_error _ _ _ _ _ _ _ failed with none | ⟨params, hm, ⟨name, dot⟩ | hn⟩
    · rw [none] at hr
      cases hr
    · rw [dot] at hr
      cases hr
      exact ⟨params, hm, nofun, nofun⟩
    · refine ⟨params, hm, ?_⟩
      rcases names_error _ _ _ _ _ hn with none | ⟨file, empty⟩ | ⟨missing, hf, hn⟩ | counted
      · rw [none] at hr
        cases hr
      · rw [empty] at hr
        cases hr
        exact ⟨nofun, nofun⟩
      · rw [missing] at hr
        cases hr
        exact ⟨fun _ => ⟨hf, hn⟩, nofun⟩
      · obtain ⟨found, hfound, complete⟩ := refusal_of_count _ _ _ counted
        rw [hfound, Option.some.injEq] at hr
        subst hr
        refine ⟨fun incomplete => ?_, fun _ => count_error _ _ _ counted⟩
        rw [complete] at incomplete
        cases incomplete
  · obtain ⟨attempt, error, rfl⟩ := perform_error _ _ _ _ _ h
    cases hr

end Create

namespace Group

theorem candidates_error (fs : FileSystem) (dir : Path) (memory : Memory) (instruction : String)
    (params : Parameters) (e : ExecutionError)
    (h : candidates fs dir memory instruction params = .error e) :
    e.refusal? = some .groupTargetNotDirectory ∨
      e.refusal? = some .noGroupTarget ∧ params.find? "group_target" = none := by
  unfold candidates at h
  split at h
  · cases h
  · split at h
    · rename_i none
      cases h
      exact .inr ⟨rfl, none⟩
    · split at h
      · cases h
      · simp only at h
        split at h
        · cases h
        · cases h
          exact .inl rfl

theorem plan_error (fs : FileSystem) (dir : Path) (memory : Memory) (declared : Instruction)
    (condition : Option Condition) (e : ExecutionError)
    (h : plan fs dir memory declared condition = .error e) :
    e.refusal? = none ∨ e.refusal? = some .groupTargetNotDirectory ∨
    ∃ params, declared.merged .group condition memory = .ok params ∧
      (params.find? "group_target" = none ∨ params.find? "path" = none ∨
        params.find? "mode" = none) ∧ ∀ cause, e.refusal? = some cause → cause.isCount = false := by
  unfold plan at h
  rw [← Instruction.merged] at h
  cases hm : declared.merged .group condition memory with
  | error cause =>
    rw [hm] at h
    cases h
    exact .inl rfl
  | ok params =>
    rw [hm] at h
    simp only [mapError_ok, bind, Except.bind] at h
    cases hf : Filter.ofParameters params ownKeys with
    | error cause =>
      rw [hf] at h
      cases h
      exact .inl rfl
    | ok filter =>
      rw [hf] at h
      simp only [mapError_ok] at h
      cases hc : candidates fs dir memory declared.name params with
      | error f =>
        rw [hc] at h
        cases h
        rcases candidates_error _ _ _ _ _ _ hc with other | ⟨missing, none⟩
        · exact .inr (.inl other)
        · refine .inr (.inr ⟨params, rfl, .inl none, ?_⟩)
          rw [missing]
          rintro cause ⟨⟩
          rfl
      | ok source =>
        rw [hc] at h
        simp only at h
        split at h
        · rename_i none
          cases h
          exact .inr (.inr ⟨params, rfl, .inr (.inl none), by rintro cause ⟨⟩; rfl⟩)
        · rename_i none _
          cases h
          exact .inr (.inr ⟨params, rfl, .inr (.inr none), by rintro cause ⟨⟩; rfl⟩)
        · cases h

theorem perform_error (fs fs' : FileSystem) (instruction : String) (p : Plan)
    (e : ExecutionError) (h : perform fs instruction p = (fs', .error e)) :
    ∃ attempt cause, e = .files instruction attempt cause := by
  unfold perform at h
  split at h
  · cases h
    exact ⟨_, _, rfl⟩
  · cases h

theorem refusal_of_run (fs fs' : FileSystem) (dir : Path) (memory : Memory)
    (declared : Instruction) (condition : Option Condition) (e : ExecutionError) (cause : Refusal)
    (h : run fs dir memory declared condition = (fs', .error e))
    (hr : e.refusal? = some cause) :
    cause.isCount = false ∧ (cause.isIncomplete = true → ∃ params,
      declared.merged .group condition memory = .ok params ∧
      (params.find? "group_target" = none ∨ params.find? "path" = none ∨
        params.find? "mode" = none)) := by
  unfold run at h
  split at h
  · rename_i failed
    cases h
    rcases plan_error _ _ _ _ _ _ failed with none | other | ⟨params, hm, missing, counts⟩
    · rw [none] at hr
      cases hr
    · rw [other] at hr
      cases hr
      exact ⟨rfl, nofun⟩
    · exact ⟨counts cause hr, fun _ => ⟨params, hm, missing⟩⟩
  · obtain ⟨attempt, error, rfl⟩ := perform_error _ _ _ _ _ h
    cases hr

end Group

namespace Rename

theorem candidates_error (fs : FileSystem) (instruction : String) (recursive : Bool)
    (directory : Path) (chained : Option ResultSet) (e : ExecutionError)
    (h : candidates fs instruction recursive directory chained = .error e) :
    e.refusal? = none := by
  unfold candidates at h
  split at h
  · cases h
  · split at h
    · cases h
    · cases hc : fs.children directory with
      | ok entries =>
        rw [hc] at h
        cases h
      | error cause =>
        rw [hc] at h
        cases h
        rfl

theorem plan_error (fs : FileSystem) (dir : Path) (memory : Memory) (declared : Instruction)
    (condition : Option Condition) (e : ExecutionError)
    (h : plan fs dir memory declared condition = .error e) :
    e.refusal? = none ∨ e.refusal? = some .pathMissing ∨ e.refusal? = some .pathNotFolder ∨
    e.refusal? = some .noPathOrMode ∧ ∃ params, declared.merged .rename condition memory =
      .ok params ∧ (params.find? "path" = none ∨ params.find? "mode" = none) := by
  unfold plan at h
  rw [← Instruction.merged] at h
  cases hm : declared.merged .rename condition memory with
  | error cause =>
    rw [hm] at h
    cases h
    exact .inl rfl
  | ok params =>
    rw [hm] at h
    simp only [mapError_ok, bind, Except.bind] at h
    cases hp : params.find? "path" with
    | none =>
      rw [hp] at h
      cases h
      exact .inr (.inr (.inr ⟨rfl, params, rfl, .inl hp⟩))
    | some rawPath =>
      cases hmode : params.find? "mode" with
      | none =>
        rw [hp, hmode] at h
        cases h
        exact .inr (.inr (.inr ⟨rfl, params, rfl, .inr hmode⟩))
      | some rawMode =>
        rw [hp, hmode] at h
        simp only at h
        cases hf : Filter.ofParameters params ownKeys with
        | error cause =>
          rw [hf] at h
          cases h
          exact .inl rfl
        | ok filter =>
          rw [hf] at h
          simp only [mapError_ok] at h
          split at h
          · cases h
            exact .inr (.inl rfl)
          · split at h
            · cases h
              exact .inr (.inr (.inl rfl))
            · split at h
              · rename_i f unread
                cases h
                exact .inl (candidates_error _ _ _ _ _ _ unread)
              · cases h

theorem renameEach_error (mode : CaseMode) (paths : List Path) (fs fs' : FileSystem)
    (e : ExecutionError) (h : renameEach mode fs paths = (fs', .error e)) :
    ∃ path cause, e = .renameFailed path cause := by
  induction paths generalizing fs with
  | nil => cases h
  | cons old rest ih =>
    rw [renameEach] at h
    split at h
    · exact ih fs h
    · split at h
      · cases h
        exact ⟨_, _, rfl⟩
      · exact ih _ h

theorem refusal_of_run (fs fs' : FileSystem) (dir : Path) (memory : Memory)
    (declared : Instruction) (condition : Option Condition) (e : ExecutionError) (cause : Refusal)
    (h : run fs dir memory declared condition = (fs', .error e))
    (hr : e.refusal? = some cause) :
    cause.isCount = false ∧ (cause.isIncomplete = true → ∃ params,
      declared.merged .rename condition memory = .ok params ∧
      (params.find? "path" = none ∨ params.find? "mode" = none)) := by
  unfold run at h
  split at h
  · rename_i failed
    cases h
    rcases plan_error _ _ _ _ _ _ failed with none | missing | noFolder | ⟨noPathOrMode, absent⟩
    · rw [none] at hr
      cases hr
    · rw [missing] at hr
      cases hr
      exact ⟨rfl, nofun⟩
    · rw [noFolder] at hr
      cases hr
      exact ⟨rfl, nofun⟩
    · rw [noPathOrMode] at hr
      cases hr
      exact ⟨rfl, fun _ => absent⟩
  · obtain ⟨path, error, rfl⟩ := renameEach_error _ _ _ _ _ h
    cases hr

end Rename
end SimpleFiles
