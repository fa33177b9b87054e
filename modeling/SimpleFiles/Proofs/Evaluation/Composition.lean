import SimpleFiles.Evaluation

/-! Evaluating one program after another. There is nothing to an evaluation but its state, so a
program that follows another one goes on where that one stops. -/
namespace SimpleFiles

instance : Append Program where
  append p q := ⟨p.statements ++ q.statements, p.span.merge q.span⟩

@[simp] theorem Program.statements_append (p q : Program) :
    (p ++ q).statements = p.statements ++ q.statements :=
  rfl

def ReportLine.shift (n : Nat) (line : ReportLine) : ReportLine :=
  { line with index := n + line.index }

def Abort.shift (n : Nat) (a : Abort) : Abort := { a with statement := n + a.statement }

namespace Evaluation

def shift (n : Nat) (e : Evaluation) : Evaluation :=
  ⟨e.state, e.report.map (·.shift n), e.abort.map (·.shift n)⟩

/-- Goes on with another evaluation where one stops, unless that one was aborted. -/
def andThen (e : Evaluation) (next : State → Evaluation) : Evaluation :=
  match e.abort with
  | some _ => e
  | none => { next e.state with report := e.report ++ (next e.state).report }

theorem andThen_of_no_abort (e : Evaluation) (next : State → Evaluation) (h : e.abort = none) :
    e.andThen next = { next e.state with report := e.report ++ (next e.state).report } := by
  rw [andThen, h]

variable (dir : Path)

theorem runFrom_shift (n index : Nat) (s : State) (statements : List Statement) :
    runFrom dir (n + index) s statements = (runFrom dir index s statements).shift n := by
  induction statements generalizing index s with
  | nil => rfl
  | cons stmt rest ih =>
    rw [runFrom, runFrom]
    cases s.step dir stmt with
    | error e => rfl
    | ok next =>
      obtain ⟨s', outcome⟩ := next
      simp only [Nat.add_assoc, ih (index + 1) s']
      cases outcome <;> rfl

theorem runFrom_append (index : Nat) (s : State) (first rest : List Statement) :
    runFrom dir index s (first ++ rest) =
      (runFrom dir index s first).andThen (runFrom dir (index + first.length) · rest) := by
  induction first generalizing index s with
  | nil => rfl
  | cons stmt first ih =>
    rw [List.cons_append, runFrom, runFrom]
    cases s.step dir stmt with
    | error e => rfl
    | ok next =>
      obtain ⟨s', outcome⟩ := next
      have length : index + (stmt :: first).length = index + 1 + first.length := by
        rw [List.length_cons]
        omega
      simp only [ih (index + 1) s', length]
      cases aborted : (runFrom dir (index + 1) s' first).abort with
      | some a => simp [andThen, aborted]
      | none => simp [andThen, aborted, List.append_assoc]

/-- Evaluation is compositional: of two programs, the second is evaluated in the state that the
first one leaves, and its lines and its abort follow, numbered on; an abort of the first ends
both. -/
theorem run_append (s : State) (p q : Program) :
    run dir s (p ++ q) =
      (run dir s p).andThen fun after => (run dir after q).shift p.statements.length := by
  have numbered : ∀ after, runFrom dir (0 + p.statements.length) after q.statements =
      (run dir after q).shift p.statements.length := by
    intro after
    rw [Nat.zero_add, run, ← runFrom_shift, Nat.add_zero]
  simp only [run, Program.statements_append, runFrom_append, numbered]

end Evaluation
end SimpleFiles
