import SimpleFiles.Proofs.Evaluation.Composition

/-! What an evaluation reports, and where it is aborted. Each execution has its line, whatever
comes of it, up to the first assignment that fails: nothing else ends an evaluation. -/
namespace SimpleFiles

def Program.take (n : Nat) (p : Program) : Program := { p with statements := p.statements.take n }

theorem Program.take_of_getElem? (p : Program) (i : Nat) (stmt : Statement)
    (h : p.statements[i]? = some stmt) :
    (p.take i).statements.length = i ∧
      p.statements = (p.take i).statements ++ stmt :: p.statements.drop (i + 1) ∧
      (p.take (i + 1)).statements = (p.take i).statements ++ [stmt] := by
  obtain ⟨inside, rfl⟩ := List.getElem?_eq_some_iff.mp h
  refine ⟨List.length_take_of_le (Nat.le_of_lt inside), ?_, ?_⟩
  · rw [← List.drop_eq_getElem_cons inside, Program.take, List.take_append_drop]
  · exact List.take_succ_eq_append_getElem inside

namespace Evaluation

variable (dir : Path)

/-- The executions among statements, each with its number and its label. -/
def executions (index : Nat) (statements : List Statement) : List (Nat × String) :=
  ((statements.zipIdx index).filter (·.1.isExecute)).map fun (stmt, i) => (i, stmt.label)

def reported (e : Evaluation) : List (Nat × String) :=
  e.report.map fun line => (line.index, line.label)

theorem executions_cons (index : Nat) (stmt : Statement) (rest : List Statement) :
    executions index (stmt :: rest) =
      (if stmt.isExecute then [(index, stmt.label)] else []) ++ executions (index + 1) rest := by
  rw [executions, List.zipIdx_cons, List.filter_cons]
  cases stmt.isExecute <;> rfl

theorem step_cases (s : State) (stmt : Statement) :
    (∃ key value span e, stmt = .assign key value span ∧ s.memory.assign key value = .error e ∧
        s.step dir stmt = .error e) ∨
      ∃ s' outcome, s.step dir stmt = .ok (s', outcome) ∧ outcome.isSome = stmt.isExecute := by
  cases stmt with
  | instruction declared => exact .inr ⟨_, _, rfl, rfl⟩
  | condition declared => exact .inr ⟨_, _, rfl, rfl⟩
  | execute name condition span => exact .inr ⟨_, _, rfl, rfl⟩
  | assign key value span =>
    rw [State.step]
    cases assigned : s.memory.assign key value with
    | error e => exact .inl ⟨key, value, span, e, rfl, assigned, rfl⟩
    | ok memory => exact .inr ⟨_, _, rfl, rfl⟩

theorem reported_of_no_abort (index : Nat) (s : State) (statements : List Statement)
    (h : (runFrom dir index s statements).abort = none) :
    (runFrom dir index s statements).reported = executions index statements := by
  induction statements generalizing index s with
  | nil => rfl
  | cons stmt rest ih =>
    rw [runFrom] at h ⊢
    rcases step_cases dir s stmt with ⟨-, -, -, e, -, -, stepped⟩ | ⟨s', outcome, stepped, has⟩
    · simp [stepped] at h
    · rw [stepped] at h ⊢
      rw [executions_cons, ← ih (index + 1) s' h, ← has]
      cases outcome <;> rfl

theorem runFrom_assign_error (index : Nat) (s : State) (key value : String) (span : Span)
    (rest : List Statement) (e : MemoryError) (h : s.memory.assign key value = .error e) :
    runFrom dir index s (.assign key value span :: rest) = ⟨s, [], some ⟨index, e⟩⟩ := by
  rw [runFrom, State.step, h]
  rfl

theorem exists_split_of_abort (index : Nat) (s : State) (statements : List Statement) (a : Abort)
    (h : (runFrom dir index s statements).abort = some a) :
    ∃ before key value span rest, statements = before ++ .assign key value span :: rest ∧
      a.statement = index + before.length ∧ (runFrom dir index s before).abort = none ∧
      (runFrom dir index s before).state.memory.assign key value = .error a.cause := by
  induction statements generalizing index s with
  | nil => cases h
  | cons stmt rest ih =>
    rw [runFrom] at h
    rcases step_cases dir s stmt with
      ⟨key, value, span, e, rfl, failed, stepped⟩ | ⟨s', outcome, stepped, -⟩
    · rw [stepped] at h
      cases h
      exact ⟨[], key, value, span, rest, rfl, rfl, rfl, failed⟩
    · rw [stepped] at h
      obtain ⟨before, key, value, span, after, rfl, number, passed, failed⟩ := ih (index + 1) s' h
      refine ⟨stmt :: before, key, value, span, after, rfl, ?_, ?_, ?_⟩
      · rw [number, List.length_cons]
        omega
      · rw [runFrom, stepped]
        exact passed
      · rw [runFrom, stepped]
        exact failed

theorem runFrom_of_assign_error (index : Nat) (s : State) (before rest : List Statement)
    (key value : String) (span : Span) (e : MemoryError)
    (passed : (runFrom dir index s before).abort = none)
    (failed : (runFrom dir index s before).state.memory.assign key value = .error e) :
    runFrom dir index s (before ++ .assign key value span :: rest) =
      { runFrom dir index s before with abort := some ⟨index + before.length, e⟩ } := by
  rw [runFrom_append, andThen_of_no_abort _ _ passed,
    runFrom_assign_error dir _ _ key value span rest e failed, List.append_nil]

theorem run_of_assign_error (s : State) (p : Program) (a : Abort) (key value : String) (span : Span)
    (found : p.statements[a.statement]? = some (.assign key value span))
    (passed : (run dir s (p.take a.statement)).abort = none)
    (failed : (run dir s (p.take a.statement)).state.memory.assign key value = .error a.cause) :
    run dir s p = { run dir s (p.take a.statement) with abort := some a } := by
  obtain ⟨length, split, -⟩ := p.take_of_getElem? _ _ found
  have whole := runFrom_of_assign_error dir 0 s (p.take a.statement).statements
    (p.statements.drop (a.statement + 1)) key value span a.cause passed failed
  rw [← split, length, Nat.zero_add] at whole
  exact whole

theorem exists_assign_of_abort (s : State) (p : Program) (a : Abort)
    (h : (run dir s p).abort = some a) :
    (run dir s (p.take a.statement)).abort = none ∧ ∃ key value span,
      p.statements[a.statement]? = some (.assign key value span) ∧
        (run dir s (p.take a.statement)).state.memory.assign key value = .error a.cause := by
  obtain ⟨before, key, value, span, rest, split, number, passed, failed⟩ :=
    exists_split_of_abort dir 0 s p.statements a h
  rw [Nat.zero_add] at number
  have taken : run dir s (p.take a.statement) = runFrom dir 0 s before := by
    rw [run, Program.take, split, number, List.take_left]
  rw [taken]
  exact ⟨passed, key, value, span, by rw [split, number]; simp, failed⟩

/-- What an evaluation reports, and where it is aborted. If nothing aborts it, it has one line for
each execution, in order. It is aborted by a statement exactly if that is an assignment, the
statements before it do not abort, and the assignment fails in the memory that they leave; then
all that it leaves and reports is what they do. -/
theorem run_reports_until_abort (s : State) (p : Program) :
    ((run dir s p).abort = none → (run dir s p).reported = executions 0 p.statements) ∧
      ∀ a, let before := run dir s (p.take a.statement)
        ((run dir s p).abort = some a ↔ before.abort = none ∧ ∃ key value span,
          p.statements[a.statement]? = some (.assign key value span) ∧
            before.state.memory.assign key value = .error a.cause) ∧
          ((run dir s p).abort = some a →
            (run dir s p).state = before.state ∧ (run dir s p).report = before.report ∧
              (run dir s p).reported = executions 0 (p.statements.take a.statement)) := by
  refine ⟨reported_of_no_abort dir 0 s p.statements, fun a => ⟨⟨?_, ?_⟩, ?_⟩⟩
  · exact exists_assign_of_abort dir s p a
  · rintro ⟨passed, key, value, span, found, failed⟩
    rw [run_of_assign_error dir s p a key value span found passed failed]
  · intro aborted
    obtain ⟨passed, key, value, span, found, failed⟩ := exists_assign_of_abort dir s p a aborted
    rw [run_of_assign_error dir s p a key value span found passed failed]
    exact ⟨rfl, rfl, reported_of_no_abort dir 0 s (p.statements.take a.statement) passed⟩

variable {dir}

theorem exists_split_of_reported (index : Nat) (s : State) (statements : List Statement)
    (line : ReportLine) (h : line ∈ (runFrom dir index s statements).report) :
    ∃ before name condition span rest,
      statements = before ++ .execute name condition span :: rest ∧
        line.index = index + before.length ∧ (runFrom dir index s before).abort = none := by
  induction statements generalizing index s with
  | nil => cases h
  | cons stmt rest ih =>
    rw [runFrom] at h
    cases stepped : s.step dir stmt with
    | error e =>
      rw [stepped] at h
      cases h
    | ok next =>
      obtain ⟨s', outcome⟩ := next
      rw [stepped] at h
      rcases List.mem_append.mp h with own | later
      · obtain ⟨told, rfl, rfl⟩ := Option.map_eq_some_iff.mp (Option.mem_toList.mp own)
        have executes : stmt.isExecute = true := by
          rcases step_cases dir s stmt with ⟨_, _, _, _, -, -, failed⟩ | ⟨_, _, same, has⟩
          · rw [stepped] at failed
            cases failed
          · rw [stepped] at same
            cases same
            exact has.symm
        cases stmt with
        | execute name condition span =>
          cases stepped
          exact ⟨[], name, condition, span, rest, rfl, rfl, rfl⟩
        | _ => cases executes
      · obtain ⟨before, name, condition, span, after, rfl, number, passed⟩ :=
          ih (index + 1) s' later
        refine ⟨stmt :: before, name, condition, span, after, rfl, ?_, ?_⟩
        · rw [number, List.length_cons]
          omega
        · rw [runFrom, stepped]
          exact passed

theorem filter_report_eq_nil (index : Nat) (s : State) (statements : List Statement) (i : Nat)
    (h : i < index ∨ index + statements.length ≤ i) :
    (runFrom dir index s statements).report.filter (·.index = i) = [] := by
  rw [List.filter_eq_nil_iff]
  intro line reported
  obtain ⟨before, name, under, span, rest, rfl, number, -⟩ :=
    exists_split_of_reported index s statements line reported
  rw [List.length_append, List.length_cons] at h
  rw [decide_eq_true_eq, number]
  omega

theorem runFrom_execute (index : Nat) (s : State) (before rest : List Statement) (name : String)
    (under : Option String) (span : Span) (passed : (runFrom dir index s before).abort = none) :
    runFrom dir index s (before ++ .execute name under span :: rest) =
      let done := (runFrom dir index s before).state.execute dir name under
      let later := runFrom dir (index + before.length + 1) done.1 rest
      { later with
        report := (runFrom dir index s before).report ++
          ⟨index + before.length, (Statement.execute name under span).label, done.2⟩ ::
            later.report } := by
  rw [runFrom_append, andThen_of_no_abort _ _ passed]
  rfl

theorem exists_line_of_reached (s : State) (p : Program) (i : Nat) (name : String)
    (under : Option String) (span : Span)
    (executed : p.statements[i]? = some (.execute name under span))
    (reached : (run dir s (p.take i)).abort = none) :
    let before := (run dir s (p.take i)).state
    let after := (run dir s (p.take (i + 1))).state
    ∃ line, (run dir s p).report.filter (·.index = i) = [line] ∧
      before.execute dir name under = (after, line.outcome) := by
  obtain ⟨length, split, further⟩ := p.take_of_getElem? i _ executed
  intro before after
  have leads : after = (before.execute dir name under).1 := by
    rw [show after = (runFrom dir 0 s _).state from rfl, further,
      runFrom_execute 0 s _ [] name under span reached]
    rfl
  refine ⟨⟨i, (Statement.execute name under span).label, (before.execute dir name under).2⟩, ?_, ?_⟩
  · rw [run, split, runFrom_execute 0 s _ _ name under span reached, List.filter_append,
      filter_report_eq_nil 0 s _ i (.inr (by omega)), List.filter_cons_of_pos (by simp [length]),
      filter_report_eq_nil _ _ _ i (.inl (by omega)), length, Nat.zero_add]
    rfl
  · rw [leads]

/-- A line of a report tells of the execution that leads from the state before its statement to
the state after it. -/
theorem exists_execute_of_reported (s : State) (p : Program) (line : ReportLine)
    (h : line ∈ (run dir s p).report) :
    let before := run dir s (p.take line.index)
    let after := run dir s (p.take (line.index + 1))
    ∃ name condition span rest,
      p.statements = (p.take line.index).statements ++ .execute name condition span :: rest ∧
        line.index = (p.take line.index).statements.length ∧ before.abort = none ∧
        before.state.execute dir name condition = (after.state, line.outcome) := by
  obtain ⟨first, name, condition, span, rest, whole, number, passed⟩ :=
    exists_split_of_reported 0 s p.statements line h
  rw [Nat.zero_add] at number
  have executed : p.statements[line.index]? = some (.execute name condition span) := by
    rw [whole, number]
    simp
  have reached : (run dir s (p.take line.index)).abort = none := by
    rw [run, Program.take, whole, number, List.take_left]
    exact passed
  obtain ⟨length, split, -⟩ := p.take_of_getElem? line.index _ executed
  obtain ⟨only, listed, leads⟩ :=
    exists_line_of_reached s p line.index name condition span executed reached
  have same : line ∈ [only] := listed ▸ List.mem_filter.mpr ⟨h, by simp⟩
  obtain rfl := List.mem_singleton.mp same
  exact ⟨name, condition, span, _, split, length.symm, reached, leads⟩

end Evaluation
end SimpleFiles
