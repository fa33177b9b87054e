import SimpleFiles.Proofs.Evaluation.Reports
import SimpleFiles.Proofs.Execution.Results

/-! What an evaluation stores. Sound files and results that lie below their bases are kept by every
statement, so each result that is stored on the way describes the tree as it is then. -/
namespace SimpleFiles.Evaluation

variable (dir : Path)

/-- The names of what statements create, each in the state that it meets, are relative and never
go up. -/
def NamesInner (s : State) : List Statement → Prop
  | [] => True
  | stmt :: rest =>
    s.NamesInner dir stmt ∧
      ∀ s' outcome, s.step dir stmt = .ok (s', outcome) → NamesInner s' rest

variable {dir}

theorem runFrom_isSound (index : Nat) (s : State) (sound : s.IsSound) (rooted : dir.IsRooted)
    (statements : List Statement) (inner : NamesInner dir s statements) :
    (runFrom dir index s statements).state.IsSound := by
  induction statements generalizing index s with
  | nil => exact sound
  | cons stmt rest ih =>
    rw [runFrom]
    cases stepped : s.step dir stmt with
    | error e => exact sound
    | ok next =>
      obtain ⟨s', outcome⟩ := next
      exact ih (index + 1) s'
        (s.step_isSound s' dir sound rooted stmt outcome inner.1 stepped)
        (inner.2 s' outcome stepped)

theorem NamesInner.of_append (index : Nat) {s : State} {first rest : List Statement}
    (h : NamesInner dir s (first ++ rest)) :
    NamesInner dir s first ∧ ((runFrom dir index s first).abort = none →
      NamesInner dir (runFrom dir index s first).state rest) := by
  induction first generalizing index s with
  | nil => exact ⟨trivial, fun _ => h⟩
  | cons stmt first ih =>
    obtain ⟨one, others⟩ := h
    refine ⟨⟨one, fun s' outcome stepped => (ih (index + 1) (others s' outcome stepped)).1⟩, ?_⟩
    rw [runFrom]
    cases stepped : s.step dir stmt with
    | error e =>
      intro aborted
      cases aborted
    | ok next => exact (ih (index + 1) (others next.1 next.2 stepped)).2

/-- What completed executions store says of the tree. Where the files are sound at first, the
results lie below their bases and names to create never go up, each line of a report that says
completed is that of an execution after which all results lie below their bases; and if the action
of its instruction stores a result, then that result describes the tree: its entries lie below its
base, and each of them that is not too long a path is there, unless it is the result of a group
that moves what the entry is reached by. -/
theorem run_results_describe (p : Program) (s : State) (sound : s.IsSound) (rooted : dir.IsRooted)
    (inner : NamesInner dir s p.statements) (line : ReportLine)
    (reported : line ∈ (run dir s p).report) (completed : line.outcome = .completed) :
    let before := (run dir s (p.take line.index)).state
    let after := (run dir s (p.take (line.index + 1))).state
    ∃ name condition span declared,
      p.statements[line.index]? = some (.execute name condition span) ∧
        before.declared.instructions.find? name = some declared ∧ after.IsSound ∧
          (declared.action.storesResult = true → ∃ result,
            after.memory.results.find? declared.name = some result ∧
              Execution.Describes before.files dir before.memory declared
                (condition.bind before.declared.conditions.find?) after.files result) := by
  obtain ⟨name, condition, span, rest, split, number, passed, done⟩ :=
    exists_execute_of_reported s p line reported
  intro before after
  rw [completed] at done
  rw [split] at inner
  obtain ⟨earlier, later⟩ := inner.of_append 0
  have soundBefore : before.IsSound := runFrom_isSound 0 s sound rooted _ earlier
  have here : before.NamesInner dir (.execute name condition span) := (later passed).1
  rcases before.execute_cases dir name condition with
    ⟨outcome, same, other⟩ | ⟨declared, _, _, known, -⟩
  · rw [done] at same
    exact absurd (congrArg Prod.snd same).symm other
  refine ⟨name, condition, span, declared, ?_, known, ?_, fun stores => ?_⟩
  · rw [split, List.getElem?_append_right (Nat.le_of_eq number.symm), ← number, Nat.sub_self]
    rfl
  · have soundAfter := before.execute_isSound dir name condition soundBefore rooted span here
    rwa [done] at soundAfter
  · obtain ⟨result, stored, described⟩ := before.execute_describes after dir name condition
      declared soundBefore rooted known stores (here declared known) done
    refine ⟨result, ?_, described⟩
    simp [stored, Memory.store, NameTable.find?_insert]

def sweep : Instruction := Group.gather "box" "box/tray" "move" [⟨"type", "file", .zero⟩]

def sweeping : Program where
  statements := [.instruction sweep, .execute "gather" none .zero]
  span := .zero

def shifting : State where
  files := {
    tree := .ofList [(["box"], .directory), (["box", "note"], .file ⟨#[1]⟩),
      (["box", "tray"], .directory), (["box", "tray", "note"], .file ⟨#[2]⟩)]
    clock := ⟨2024, 1, 1, 0, 0, 0⟩ }

theorem run_results_describe_shifting :
    shifting.IsSound ∧ (Path.ofText "/").IsRooted ∧
      NamesInner (.ofText "/") shifting sweeping.statements ∧
      ⟨1, "EXEC_INST gather", .completed⟩ ∈ (run (.ofText "/") shifting sweeping).report ∧
      let before := (run (.ofText "/") shifting (sweeping.take 1)).state
      let after := (run (.ofText "/") shifting sweeping).state
      after.IsSound ∧ ∃ result, after.memory.results.find? "gather" = some result ∧
        result.entries = [⟨["", "box", "tray", "note"]⟩, ⟨["", "box", "tray", "tray", "note"]⟩] ∧
        ∃ p, Group.plan before.files (.ofText "/") before.memory sweep none = .ok p ∧
          p.Loses before.files ⟨["", "box", "tray", "note"]⟩ := by
  have sound : shifting.IsSound := ⟨by decide +kernel, nofun⟩
  have rooted : (Path.ofText "/").IsRooted := ⟨by decide, Path.isPlain_ofText "/"⟩
  have inner : NamesInner (.ofText "/") shifting sweeping.statements := by
    refine ⟨trivial, fun s' outcome declares => ⟨fun declared known kind p action => ?_, ?_⟩⟩
    · cases declares
      cases known
      cases kind <;> cases action
    · exact fun _ _ _ => trivial
  have told : (run (.ofText "/") shifting sweeping).report =
      [⟨1, "EXEC_INST gather", .completed⟩] ∧
        (run (.ofText "/") shifting sweeping).state.memory.results.find? "gather" =
          some ⟨⟨["", "box", "tray"]⟩,
            [⟨["", "box", "tray", "note"]⟩, ⟨["", "box", "tray", "tray", "note"]⟩]⟩ ∧
        Place.locate (run (.ofText "/") shifting sweeping).state.files.tree false
          ⟨["", "box", "tray", "note"]⟩ = .error .noEntry := by
    decide +kernel
  obtain ⟨reported, stored, gone⟩ := told
  have listed : ⟨1, "EXEC_INST gather", .completed⟩ ∈
      (run (.ofText "/") shifting sweeping).report := by
    rw [reported]
    exact List.mem_singleton.mpr rfl
  obtain ⟨name, condition, span, declared, executed, known, soundAfter, describes⟩ :=
    run_results_describe sweeping shifting sound rooted inner _ listed rfl
  cases executed
  cases known
  obtain ⟨result, found, described⟩ := describes rfl
  obtain rfl := Option.some.inj (found.symm.trans stored)
  refine ⟨sound, rooted, inner, listed, soundAfter, _, stored, rfl, ?_⟩
  have short : (Path.text ⟨["", "box", "tray", "note"]⟩).utf8ByteSize < Place.maxPathSize := by
    decide +kernel
  rcases described.there _ (List.mem_cons_self ..) short with ⟨l, there⟩ | ⟨-, lost⟩
  · exact absurd (there.symm.trans gone) nofun
  · exact lost

end SimpleFiles.Evaluation
