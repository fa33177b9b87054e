import Mathlib.Tactic.ByContra
import SimpleFiles.Interpreter
import SimpleFiles.Proofs.Check.Findings
import SimpleFiles.Proofs.Execution.Parameters
import SimpleFiles.Proofs.Execution.Refusals

/-! A program in which the checker finds no error runs without the failures that the
checker is there to prevent, whatever memory and files it starts from. -/
namespace SimpleFiles
open Check

theorem isSome_of_isPresent (value : Option String) (h : isPresent value = true) :
    value.isSome = true := by
  cases value with
  | none => cases h
  | some v => rfl

theorem keys_of_missingIssues (action : Action) (keys : List String) (params : List Parameter)
    (h : missingIssues action keys params = []) :
    ∀ key ∈ keys, (lastValue? params key).isSome = true := by
  intro key hk
  apply isSome_of_isPresent
  cases hp : isPresent (lastValue? params key) with
  | true => rfl
  | false =>
    have kept : key ∈ keys.filter fun key => !isPresent (lastValue? params key) :=
      List.mem_filter.mpr ⟨hk, by simp [hp]⟩
    rw [missingIssues, List.map_eq_nil_iff] at h
    rw [h] at kept
    cases kept

theorem find?_ne_none_of_missingIssues (work : Work) (action : Action) (keys : List String)
    (declared : Instruction) (condition : Option Condition) (memory : Memory)
    (params : Parameters) (accepted : missingIssues action keys declared.params = [])
    (merged : declared.merged work condition memory = .ok params) :
    ∀ key ∈ keys, params.find? key ≠ none := by
  intro key hk
  rw [← Option.isSome_iff_ne_none]
  exact Parameters.isSome_find?_of_merge work declared.params _ memory.env params merged key
    (keys_of_missingIssues action keys declared.params accepted key hk)

theorem name_of_createIssues (action : Action) (params : List Parameter)
    (h : createIssues action params = []) :
    (lastValue? params "name").isSome = true ∨ (lastValue? params "namefile").isSome = true := by
  unfold createIssues at h
  rw [List.append_eq_nil_iff, List.append_eq_nil_iff] at h
  cases hn : lastValue? params "name" with
  | some name => exact .inl rfl
  | none =>
    cases hf : lastValue? params "namefile" with
    | some file => exact .inr rfl
    | none =>
      rw [hn, hf] at h
      cases h.1.1

theorem count_of_createIssues (action : Action) (params : List Parameter)
    (h : createIssues action params = []) (raw : String)
    (hc : lastValue? params "count" = some raw) (literal : Reference.isReference raw = false) :
    ∃ n, Text.int32? (Text.trim raw) = some n ∧ 0 < n := by
  unfold createIssues at h
  rw [List.append_eq_nil_iff, hc] at h
  have issues : countIssues action raw = [] := h.2
  rw [countIssues, literal] at issues
  cases hn : Text.int32? (Text.trim raw) with
  | none =>
    simp [hn] at issues
  | some n =>
    refine ⟨n, rfl, ?_⟩
    simpa [hn] using issues

/-- The count that takes effect is known before the program runs. -/
structure Instruction.HasKnownCount (declared : Instruction) (condition : Option Condition) :
    Prop where
  literal : ∀ raw, lastValue? declared.params "count" = some raw →
    Reference.isReference raw = false
  notSet : ∀ under, condition = some under → ∀ p ∈ under.params, p.lowerKey ≠ "count"

namespace Create

theorem refusal_of_accepted (fs fs' : FileSystem) (dir : Path) (memory : Memory) (kind : Kind)
    (action : Action) (declared : Instruction) (condition : Option Condition)
    (e : ExecutionError) (cause : Refusal) (accepted : createIssues action declared.params = [])
    (h : run fs dir memory kind declared condition = (fs', .error e))
    (hr : e.refusal? = some cause) :
    cause.isIncomplete = false ∧
      (declared.HasKnownCount condition → cause.isCount = false) := by
  obtain ⟨params, merged, incomplete, counted⟩ :=
    refusal_of_run fs fs' dir memory kind declared condition e cause h hr
  have kept := Parameters.isSome_find?_of_merge .create declared.params _ memory.env params merged
  constructor
  · rw [Bool.eq_false_iff]
    intro hi
    obtain ⟨noFile, noName⟩ := incomplete hi
    rcases name_of_createIssues action declared.params accepted with hn | hf
    · have := kept "name" hn
      rw [noName] at this
      cases this
    · have := kept "namefile" hf
      rw [noFile] at this
      cases this
  · intro known
    rw [Bool.eq_false_iff]
    intro hi
    obtain ⟨text, found, small⟩ := counted hi
    have absent : ∀ p ∈ (condition.map (·.params)).getD [], p.lowerKey ≠ "count" := by
      cases condition with
      | none => exact nofun
      | some under => exact known.notSet under rfl
    have effective := Parameters.find?_of_merge .create declared.params _ memory.env params merged
      "count" absent
    cases hc : lastValue? declared.params "count" with
    | none =>
      rw [hc] at effective
      rw [effective] at found
      cases found
    | some raw =>
      rw [hc] at effective
      obtain ⟨value, resolved, hv⟩ := effective
      have literal := known.literal raw hc
      have same : value = raw := by
        have hn : Reference.name? raw = none := by simpa [Reference.isReference] using literal
        rw [Environment.resolve, hn, Except.ok.injEq] at resolved
        exact resolved.symm
      rw [hv, Option.some.injEq, same] at found
      subst found
      obtain ⟨n, hn, positive⟩ := count_of_createIssues action declared.params accepted raw hc literal
      have := small n hn
      omega

end Create

theorem Group.incomplete_of_accepted (fs fs' : FileSystem) (dir : Path) (memory : Memory)
    (declared : Instruction) (condition : Option Condition) (e : ExecutionError)
    (cause : Refusal)
    (accepted : missingIssues .group ["group_target", "path", "mode"] declared.params = [])
    (h : Group.run fs dir memory declared condition = (fs', .error e))
    (hr : e.refusal? = some cause) : cause.isIncomplete = false ∧ cause.isCount = false := by
  obtain ⟨counts, incomplete⟩ := refusal_of_run fs fs' dir memory declared condition e cause h hr
  refine ⟨?_, counts⟩
  rw [Bool.eq_false_iff]
  intro hi
  obtain ⟨params, merged, missing⟩ := incomplete hi
  have kept := find?_ne_none_of_missingIssues .group .group _ declared condition memory params accepted
    merged
  rcases missing with noTarget | noPath | noMode
  · exact kept "group_target" (by simp) noTarget
  · exact kept "path" (by simp) noPath
  · exact kept "mode" (by simp) noMode

theorem Rename.incomplete_of_accepted (fs fs' : FileSystem) (dir : Path) (memory : Memory)
    (declared : Instruction) (condition : Option Condition) (e : ExecutionError)
    (cause : Refusal) (accepted : missingIssues .rename ["path", "mode"] declared.params = [])
    (h : Rename.run fs dir memory declared condition = (fs', .error e))
    (hr : e.refusal? = some cause) : cause.isIncomplete = false ∧ cause.isCount = false := by
  obtain ⟨counts, incomplete⟩ := refusal_of_run fs fs' dir memory declared condition e cause h hr
  refine ⟨?_, counts⟩
  rw [Bool.eq_false_iff]
  intro hi
  obtain ⟨params, merged, missing⟩ := incomplete hi
  have kept := find?_ne_none_of_missingIssues .rename .rename _ declared condition memory params accepted
    merged
  rcases missing with noPath | noMode
  · exact kept "path" (by simp) noPath
  · exact kept "mode" (by simp) noMode

theorem Execution.refusal_of_accepted (fs fs' : FileSystem) (dir : Path) (memory : Memory)
    (declared : Instruction) (condition : Option Condition) (e : ExecutionError)
    (cause : Refusal) (accepted : actionIssues declared = [])
    (h : Execution.run fs dir memory declared condition = (fs', .error e))
    (hr : e.refusal? = some cause) :
    cause.isIncomplete = false ∧
      (declared.HasKnownCount condition → cause.isCount = false) := by
  obtain ⟨files, result, acted⟩ : ∃ files result, act fs dir memory declared condition =
      (files, result) := ⟨_, _, rfl⟩
  rw [Execution.run, acted] at h
  have failed : result = .error e := by
    cases result with
    | error f => cases h; rfl
    | ok r => cases h
  rw [failed] at acted
  unfold act at acted
  unfold actionIssues at accepted
  cases ha : declared.action with
  | createFile =>
    simp only [ha] at acted accepted
    exact Create.refusal_of_accepted _ _ _ _ _ _ _ _ _ _ accepted (eq_of_map_error _ _ _ _ acted) hr
  | createFolder =>
    simp only [ha] at acted accepted
    exact Create.refusal_of_accepted _ _ _ _ _ _ _ _ _ _ accepted (eq_of_map_error _ _ _ _ acted) hr
  | group =>
    simp only [ha] at acted accepted
    have := Group.incomplete_of_accepted _ _ _ _ _ _ _ _ accepted (eq_of_map_error _ _ _ _ acted) hr
    exact ⟨this.1, fun _ => this.2⟩
  | rename =>
    simp only [ha] at acted accepted
    have := Rename.incomplete_of_accepted _ _ _ _ _ _ _ _ accepted (eq_of_map_error _ _ _ _ acted) hr
    exact ⟨this.1, fun _ => this.2⟩
  | unsupported word =>
    simp only [ha] at accepted
    cases accepted

structure Program.Accepted (p : Program) : Prop where
  declared : ∀ before s rest, p.statements = before ++ s :: rest → declarationIssues before s = []
  referenced : ∀ before s rest, p.statements = before ++ s :: rest → referenceIssues before s = []
  complete : ∀ d, .instruction d ∈ p.statements → actionIssues d = []

theorem Program.accepted_of_firstError? (p : Program) (h : Checker.default.firstError? p = none) :
    p.Accepted where
  declared before s rest split :=
    issues_eq_nil .default p h before rest s split .duplicateDeclaration (by decide) nofun
  referenced before s rest split :=
    issues_eq_nil .default p h before rest s split .undefinedReference (by decide) nofun
  complete d hd := by
    obtain ⟨before, rest, split⟩ := List.append_of_mem hd
    have none := issues_eq_nil .default p h before rest _ split .instructionParameters
      (by decide) nofun
    exact List.map_eq_nil_iff.mp none

theorem mem_instructionNames_iff (statements : List Statement) (name : String) :
    name ∈ instructionNames statements ↔ ∃ d, .instruction d ∈ statements ∧ d.name = name := by
  unfold instructionNames
  rw [List.mem_filterMap]
  constructor
  · rintro ⟨s, hs, hn⟩
    cases s with
    | instruction d =>
      cases hn
      exact ⟨d, hs, rfl⟩
    | condition d => cases hn
    | assign key value span => cases hn
    | execute name condition span => cases hn
  · rintro ⟨d, hd, rfl⟩
    exact ⟨_, hd, rfl⟩

theorem mem_conditionNames_iff (statements : List Statement) (name : String) :
    name ∈ conditionNames statements ↔ ∃ d, .condition d ∈ statements ∧ d.name = name := by
  unfold conditionNames
  rw [List.mem_filterMap]
  constructor
  · rintro ⟨s, hs, hn⟩
    cases s with
    | condition d =>
      cases hn
      exact ⟨d, hs, rfl⟩
    | instruction d => cases hn
    | assign key value span => cases hn
    | execute name condition span => cases hn
  · rintro ⟨d, hd, rfl⟩
    exact ⟨_, hd, rfl⟩

theorem Program.Accepted.instruction_unique {p : Program} (h : p.Accepted) (a b : Instruction)
    (ha : .instruction a ∈ p.statements) (hb : .instruction b ∈ p.statements)
    (same : a.name = b.name) : a = b := by
  have fresh : ∀ before (d : Instruction) rest, p.statements = before ++ .instruction d :: rest →
      d.name ∉ instructionNames before := by
    intro before d rest split earlier
    have none := List.map_eq_nil_iff.mp (h.declared before _ rest split)
    unfold nameIssues at none
    rw [if_pos earlier] at none
    split at none <;> cases none
  obtain ⟨before, rest, split⟩ := List.append_of_mem ha
  rw [split, List.mem_append, List.mem_cons] at hb
  rcases hb with early | here | late
  · exact absurd ((mem_instructionNames_iff before a.name).mpr ⟨b, early, same.symm⟩)
      (fresh before a rest split)
  · exact (Statement.instruction.inj here).symm
  · obtain ⟨between, later, rfl⟩ := List.append_of_mem late
    have split' : p.statements = (before ++ .instruction a :: between) ++ .instruction b :: later := by
      simp [split]
    exact absurd ((mem_instructionNames_iff _ b.name).mpr ⟨a, by simp, same⟩)
      (fresh _ b later split')

/-- The table holds declarations only, and one under the name of each. -/
structure NameTable.Covers (table : NameTable α) (nameOf : α → String) (declared : α → Prop) :
    Prop where
  sound : ∀ name d, table.find? name = some d → declared d ∧ nameOf d = name
  full : ∀ d, declared d → (table.find? (nameOf d)).isSome = true

theorem NameTable.Covers.insert {table : NameTable α} {nameOf : α → String}
    {declared later : α → Prop} (h : table.Covers nameOf declared) (new : α)
    (hl : ∀ d, later d ↔ declared d ∨ d = new) :
    (table.insert (nameOf new) new).Covers nameOf later where
  sound name d hd := by
    rw [find?_insert] at hd
    split at hd
    · rename_i same
      cases hd
      exact ⟨(hl new).mpr (.inr rfl), same.symm⟩
    · have := h.sound name d hd
      exact ⟨(hl d).mpr (.inl this.1), this.2⟩
  full d hd := by
    rw [find?_insert]
    split
    · rfl
    · rename_i other
      rcases (hl d).mp hd with old | rfl
      · exact h.full d old
      · exact absurd rfl other

theorem NameTable.Covers.congr {table : NameTable α} {nameOf : α → String}
    {declared later : α → Prop} (h : table.Covers nameOf declared)
    (hl : ∀ d, later d ↔ declared d) : table.Covers nameOf later where
  sound name d hd := ⟨(hl d).mpr (h.sound name d hd).1, (h.sound name d hd).2⟩
  full d hd := h.full d ((hl d).mp hd)

structure Declarations.Cover (tables : Declarations) (before : List Statement) : Prop where
  instructions : tables.instructions.Covers Instruction.name fun d => .instruction d ∈ before
  conditions : tables.conditions.Covers Condition.name fun d => .condition d ∈ before

def Declarations.declare (tables : Declarations) : Statement → Declarations
  | .instruction d => { tables with instructions := tables.instructions.insert d.name d }
  | .condition d => { tables with conditions := tables.conditions.insert d.name d }
  | _ => tables

namespace State

theorem execute_declared (s : State) (dir : Path) (name : String) (condition : Option String) :
    (s.execute dir name condition).1.declared = s.declared := by
  unfold execute
  split
  · rfl
  · split
    · rfl
    · split
      · rfl
      · split <;> rfl

theorem declared_of_step (s s' : State) (dir : Path) (stmt : Statement) (outcome : Option Outcome)
    (hs : s.step dir stmt = .ok (s', outcome)) : s'.declared = s.declared.declare stmt := by
  cases stmt with
  | instruction d =>
    cases hs
    rfl
  | condition d =>
    cases hs
    rfl
  | assign key value span =>
    simp only [step] at hs
    cases ha : s.memory.assign key value with
    | error e =>
      rw [ha] at hs
      cases hs
    | ok memory =>
      rw [ha] at hs
      cases hs
      rfl
  | execute name condition span =>
    cases hs
    exact execute_declared s dir name condition

theorem cover_of_step (s s' : State) (dir : Path) (stmt : Statement) (outcome : Option Outcome)
    (before : List Statement) (h : s.declared.Cover before)
    (hs : s.step dir stmt = .ok (s', outcome)) : s'.declared.Cover (before ++ [stmt]) := by
  rw [s.declared_of_step s' dir stmt outcome hs]
  cases stmt with
  | instruction d => exact ⟨h.instructions.insert d (by simp), h.conditions.congr (by simp)⟩
  | condition d => exact ⟨h.instructions.congr (by simp), h.conditions.insert d (by simp)⟩
  | assign key value span =>
    exact ⟨h.instructions.congr (by simp), h.conditions.congr (by simp)⟩
  | execute name condition span =>
    exact ⟨h.instructions.congr (by simp), h.conditions.congr (by simp)⟩

/-- What an execution comes to when its names are declared and every instruction is
complete: the instruction runs, under the condition if there is one. -/
theorem execute_of_cover (s : State) (dir : Path) (name : String) (under : Option String)
    (before : List Statement) (h : s.declared.Cover before)
    (complete : ∀ d, .instruction d ∈ before → actionIssues d = [])
    (hn : name ∈ instructionNames before)
    (hu : ∀ other, under = some other → other ∈ conditionNames before) :
    ∃ d condition, .instruction d ∈ before ∧ d.name = name ∧
      under = condition.map Condition.name ∧
      (∀ c, condition = some c → .condition c ∈ before) ∧
      ((s.execute dir name under).2 = .completed ∨
        ∃ files e, Execution.run s.files dir s.memory d condition = (files, .error e) ∧
          (s.execute dir name under).2 = .failed (.execution e)) := by
  obtain ⟨earlier, declared, rfl⟩ := (mem_instructionNames_iff before name).mp hn
  obtain ⟨d, hd⟩ := Option.isSome_iff_exists.mp (h.instructions.full earlier declared)
  obtain ⟨hmem, hname⟩ := h.instructions.sound _ d hd
  obtain ⟨condition, same, among, found⟩ : ∃ condition : Option Condition,
      under = condition.map Condition.name ∧ (∀ c, condition = some c → .condition c ∈ before) ∧
      under.bind s.declared.conditions.find? = condition := by
    cases under with
    | none => exact ⟨none, rfl, nofun, rfl⟩
    | some other =>
      obtain ⟨c, hc, rfl⟩ := (mem_conditionNames_iff before other).mp (hu other rfl)
      obtain ⟨c', hc'⟩ := Option.isSome_iff_exists.mp (h.conditions.full c hc)
      obtain ⟨hmem', hname'⟩ := h.conditions.sound _ c' hc'
      refine ⟨some c', by simp [hname'], ?_, hc'⟩
      rintro c ⟨⟩
      exact hmem'
  refine ⟨d, condition, hmem, hname, same, among, ?_⟩
  have supported : ∀ word, d.action ≠ .unsupported word := by
    intro word hw
    have none := complete d hmem
    rw [actionIssues, hw] at none
    cases none
  unfold execute
  simp only [hd, found]
  split
  · cases same
  · cases hrun : Execution.run s.files dir s.memory d condition with
    | mk files result =>
      cases result with
      | ok memory => exact .inl rfl
      | error e => exact .inr ⟨files, e, rfl, rfl⟩

theorem execute_of_step (s s' : State) (dir : Path) (stmt : Statement) (outcome : Outcome)
    (h : s.step dir stmt = .ok (s', some outcome)) :
    ∃ name under span, stmt = .execute name under span ∧
      outcome = (s.execute dir name under).2 := by
  cases stmt with
  | instruction d => cases h
  | condition d => cases h
  | assign key value span =>
    simp only [step] at h
    cases ha : s.memory.assign key value with
    | error e =>
      rw [ha] at h
      cases h
    | ok memory =>
      rw [ha] at h
      cases h
  | execute name under span =>
    cases h
    exact ⟨name, under, span, rfl, rfl⟩

end State

def Outcome.refusal? : Outcome → Option Refusal
  | .failed (.execution e) => e.refusal?
  | _ => none

/-- What can become of an execution in an accepted program. -/
structure Outcome.IsSound (p : Program) (name : String) (under : Option String)
    (outcome : Outcome) : Prop where
  notSkipped : ∀ word, outcome ≠ .skipped word
  instructionDeclared : ∀ other, outcome ≠ .failed (.undefinedInstruction other)
  conditionDeclared : ∀ other, outcome ≠ .failed (.undefinedCondition other)
  complete : ∀ cause, outcome.refusal? = some cause → cause.isIncomplete = false
  counted : ∀ d, .instruction d ∈ p.statements → d.name = name →
    (∀ raw, lastValue? d.params "count" = some raw → Reference.isReference raw = false) →
    (∀ c, .condition c ∈ p.statements → under = some c.name →
      ∀ q ∈ c.params, q.lowerKey ≠ "count") →
    ∀ cause, outcome.refusal? = some cause → cause.isCount = false

theorem State.isSound_of_execute (s : State) (dir : Path) (p : Program) (h : p.Accepted)
    (before rest : List Statement) (name : String) (under : Option String) (span : Span)
    (split : p.statements = before ++ .execute name under span :: rest)
    (cover : s.declared.Cover before) :
    Outcome.IsSound p name under (s.execute dir name under).2 := by
  have within : ∀ stmt, stmt ∈ before → stmt ∈ p.statements := by
    intro stmt hm
    rw [split]
    exact List.mem_append_left _ hm
  have declared := h.referenced before _ rest split
  have hn : name ∈ instructionNames before := by
    by_contra missing
    cases under with
    | none =>
      rw [referenceIssues, if_neg missing] at declared
      cases declared
    | some other =>
      rw [referenceIssues, if_neg missing] at declared
      cases declared
  have hu : ∀ other, under = some other → other ∈ conditionNames before := by
    rintro other rfl
    by_contra missing
    rw [referenceIssues, if_pos hn, if_neg missing] at declared
    cases declared
  obtain ⟨d, condition, hd, rfl, same, among, completed | ⟨files, e, failed, outcome⟩⟩ :=
    s.execute_of_cover dir name under before cover (fun d hd => h.complete d (within _ hd)) hn hu
  · rw [completed]
    have silent : Outcome.completed.refusal? = none := rfl
    refine ⟨by simp, by simp, by simp, ?_, ?_⟩
    · intro cause hc
      rw [silent] at hc
      cases hc
    · intro d _ _ _ _ cause hc
      rw [silent] at hc
      cases hc
  · rw [outcome]
    have sound := fun cause => Execution.refusal_of_accepted s.files files dir s.memory d condition
      e cause (h.complete d (within _ hd)) failed
    refine ⟨by simp, by simp, by simp, fun cause hc => (sound cause hc).1, ?_⟩
    intro d' hd' hname literal unset cause hc
    have unique : d' = d := h.instruction_unique d' d hd' (within _ hd) hname
    subst unique
    refine (sound cause hc).2 ⟨literal, ?_⟩
    intro c hcond
    exact unset c (within _ (among c hcond)) (by rw [same, hcond]; rfl)

theorem Evaluation.isSound_of_runFrom (dir : Path) (p : Program) (h : p.Accepted)
    (rest before : List Statement) (s : State) (split : p.statements = before ++ rest)
    (cover : s.declared.Cover before) :
    ∀ line ∈ (runFrom dir before.length s rest).report, ∃ name under span,
      p.statements[line.index]? = some (.execute name under span) ∧
        line.outcome.IsSound p name under := by
  induction rest generalizing before s with
  | nil => exact nofun
  | cons stmt rest ih =>
    intro line hl
    rw [runFrom] at hl
    cases hs : s.step dir stmt with
    | error e =>
      rw [hs] at hl
      cases hl
    | ok next =>
      obtain ⟨s', outcome⟩ := next
      simp only [hs, List.mem_append] at hl
      rcases hl with here | later
      · obtain ⟨result, ho, hline⟩ : ∃ result, outcome = some result ∧
            line = ⟨before.length, stmt.label, result⟩ := by
          cases outcome with
          | none => cases here
          | some result => exact ⟨result, rfl, List.mem_singleton.mp here⟩
        obtain ⟨name, under, span, rfl, rfl⟩ := s.execute_of_step s' dir stmt result (ho ▸ hs)
        refine ⟨name, under, span, ?_, ?_⟩
        · rw [hline, split]
          simp
        · rw [hline]
          exact s.isSound_of_execute dir p h before rest name under span split cover
      · have := ih (before ++ [stmt]) s' (by simp [split])
          (s.cover_of_step s' dir stmt outcome before cover hs) line
        rw [List.length_append] at this
        exact this later

/-- What was reported before the evaluation ended, if there was one. -/
def Interpretation.report (done : Interpretation) : Report :=
  match done.result with
  | .ok report => report
  | .error (.aborted _ report) => report
  | .error _ => []

theorem Interpreter.report_evaluate (dir : Path) (memory : Memory) (files : FileSystem)
    (p : Program) :
    (evaluate dir memory files p).report = (Evaluation.run dir { memory, files } p).report := by
  unfold evaluate Interpretation.report
  generalize Evaluation.run dir { memory, files } p = e
  obtain ⟨state, report, abort⟩ := e
  cases abort <;> rfl

/-- Whatever interpreter runs a program without errors, from whatever memory and files,
no execution is skipped, misses a declaration or lacks a parameter of its action, and no
count that is known beforehand is refused. -/
theorem Interpreter.isSound_of_no_error (i : Interpreter) (memory : Memory) (files : FileSystem)
    (p : Program) (h : Checker.default.firstError? p = none) :
    ∀ line ∈ (i.run memory files p).report, ∃ name under span,
      p.statements[line.index]? = some (.execute name under span) ∧
        line.outcome.IsSound p name under := by
  have accepted := p.accepted_of_firstError? h
  intro line hl
  unfold run at hl
  split at hl
  · cases hl
  · rw [report_evaluate] at hl
    have cover : Declarations.Cover {} [] :=
      ⟨⟨nofun, nofun⟩, ⟨nofun, nofun⟩⟩
    exact Evaluation.isSound_of_runFrom i.directory p accepted p.statements [] { memory, files }
      rfl cover line hl

def Program.createFolder (name path : String) : Program where
  statements :=
    [.instruction ⟨"create", .createFolder, [⟨"name", name, .zero⟩, ⟨"path", path, .zero⟩], .zero⟩,
      .execute "create" none .zero]

theorem Interpreter.isSound_createFolder :
    let p := Program.createFolder "a" "p"
    let done := run ⟨.default, .ofText "/"⟩ .empty { clock := ⟨2024, 1, 1, 0, 0, 0⟩ } p
    Checker.default.firstError? p = none ∧ done.report.length = 1 ∧
      ∀ line ∈ done.report, ∃ name under span,
        p.statements[line.index]? = some (.execute name under span) ∧
          line.outcome.IsSound p name under := by
  have accepted : Checker.default.firstError? (Program.createFolder "a" "p") = none := by
    decide +kernel
  exact ⟨accepted, by decide +kernel, isSound_of_no_error _ _ _ _ accepted⟩

end SimpleFiles
