import SimpleFiles.Proofs.Create.Confinement
import SimpleFiles.Proofs.Execution.Effects
import SimpleFiles.Proofs.Group.Confinement
import SimpleFiles.Proofs.Rename.Confinement

/-! An evaluation stays below its working directory when all paths that it is given are relative
and never go up. What it keeps in memory is part of the invariant: the paths of earlier results
are worked on, too. -/
namespace SimpleFiles

open FileTree FileSystem

/-- The texts that a statement is given as paths in a state. -/
def State.givenPaths (s : State) (dir : Path) : Statement → List String
  | .execute name condition _ =>
    match s.declared.instructions.find? name with
    | none => []
    | some declared =>
      match condition, condition.bind s.declared.conditions.find? with
      | some _, none => []
      | _, found => Execution.givenPaths s.files dir s.memory declared found
  | _ => []

/-- The texts that statements are given as paths, each in the state that it meets. -/
def Evaluation.givenPaths (dir : Path) (s : State) : List Statement → List String
  | [] => []
  | stmt :: rest =>
    s.givenPaths dir stmt ++
      match s.step dir stmt with
      | .error _ => []
      | .ok (s, _) => givenPaths dir s rest

variable {dir : Path} {base : Location}

theorem eq_ok_of_map_some {σ ε α : Type} (x : σ × Except ε α) (a : α)
    (h : (x.map id (·.map some)).2 = .ok (some a)) : x.2 = .ok a := by
  obtain ⟨s, outcome⟩ := x
  cases outcome with
  | error e => cases h
  | ok b => cases h; rfl

namespace Execution

variable {fs : FileSystem} {memory : Memory} {declared : Instruction} {condition : Option Condition}
  (anchored : Anchored dir base fs) (stored : memory.LiesUnder dir)
  (inner : ∀ text ∈ givenPaths fs dir memory declared condition, (Path.ofText text).IsInner)

include anchored stored inner

theorem act_confined :
    Confined base fs (act fs dir memory declared condition).1 ∧
      ∀ result, (act fs dir memory declared condition).2 = .ok (some result) →
        result.LiesUnder dir := by
  have given : ∀ work, Work.ofAction? declared.action = some work →
      ∀ text ∈ declared.givenPaths work fs dir memory condition, (Path.ofText text).IsInner := by
    intro work does
    rwa [givenPaths, does] at inner
  have created : ∀ kind : Create.Kind, declared.action = kind.action →
      Confined base fs (act fs dir memory declared condition).1 ∧
        ∀ result, (act fs dir memory declared condition).2 = .ok (some result) →
          result.LiesUnder dir := by
    intro kind action
    obtain ⟨done, under⟩ := Create.run_confined anchored kind memory declared condition
      (given .create (by rw [action]; cases kind <;> rfl))
    rw [act_create kind fs dir memory declared condition action]
    exact ⟨done, fun result ok => under result (eq_ok_of_map_some _ result ok)⟩
  cases action : declared.action with
  | createFile => exact created .file action
  | createFolder => exact created .folder action
  | group =>
    obtain ⟨done, under⟩ := Group.run_confined anchored memory stored declared condition
      (given .group (by rw [action]; rfl))
    rw [act, action]
    exact ⟨done, fun result ok => under result (eq_ok_of_map_some _ result ok)⟩
  | rename =>
    have done := Rename.run_confined anchored memory stored declared condition
      (given .rename (by rw [action]; rfl))
    rw [act, action]
    refine ⟨done, fun result ok => ?_⟩
    obtain ⟨_, -, none⟩ := exists_of_map_ok _ _ _ _ (Prod.ext rfl ok)
    cases none
  | unsupported word =>
    rw [act, action]
    refine ⟨.refl anchored.proper, ?_⟩
    intro result ok
    cases ok

theorem run_confined :
    Confined base fs (run fs dir memory declared condition).1 ∧
      ∀ memory', (run fs dir memory declared condition).2 = .ok memory' →
        memory'.LiesUnder dir := by
  obtain ⟨done, under⟩ := act_confined anchored stored inner
  refine ⟨done, fun memory' ok => ?_⟩
  obtain ⟨result, acted, rfl⟩ := exists_of_map_ok _ _ _ _ (Prod.ext rfl ok)
  cases result with
  | none => exact stored
  | some result => exact stored.store declared.name result (under result (by rw [acted]))

end Execution

namespace State

variable {s : State} (anchored : Anchored dir base s.files) (stored : s.memory.LiesUnder dir)

include anchored stored in
theorem execute_confined (name : String) (guard : Option String) (span : Span)
    (inner : ∀ text ∈ s.givenPaths dir (.execute name guard span), (Path.ofText text).IsInner) :
    Confined base s.files (s.execute dir name guard).1.files ∧
      (s.execute dir name guard).1.memory.LiesUnder dir := by
  unfold execute
  unfold givenPaths at inner
  split
  · exact ⟨.refl anchored.proper, stored⟩
  · rename_i declared found
    simp only [found] at inner
    split
    · exact ⟨.refl anchored.proper, stored⟩
    · rename_i guard _ _ known
      have within : ∀ text ∈ Execution.givenPaths s.files dir s.memory declared
          (guard.bind s.declared.conditions.find?), (Path.ofText text).IsInner := by
        split at inner
        · rename_i condition missing
          exact (known condition rfl missing).elim
        · exact inner
      split
      · exact ⟨.refl anchored.proper, stored⟩
      · obtain ⟨done, results⟩ := Execution.run_confined anchored stored within
        split
        · rename_i completed
          rw [completed] at done results
          exact ⟨done, results _ rfl⟩
        · rename_i failed
          rw [failed] at done
          exact ⟨done, stored⟩

include anchored stored in
theorem step_confined (stmt : Statement) (s' : State) (outcome : Option Outcome)
    (inner : ∀ text ∈ s.givenPaths dir stmt, (Path.ofText text).IsInner)
    (h : s.step dir stmt = .ok (s', outcome)) :
    Confined base s.files s'.files ∧ s'.memory.LiesUnder dir := by
  cases stmt with
  | instruction declared =>
    cases h
    exact ⟨.refl anchored.proper, stored⟩
  | condition declared =>
    cases h
    exact ⟨.refl anchored.proper, stored⟩
  | assign key value span =>
    obtain ⟨env, rfl⟩ := s.exists_of_step_assign dir s' key value span outcome h
    exact ⟨.refl anchored.proper, stored⟩
  | execute name condition span =>
    cases h
    exact execute_confined anchored stored name condition span inner

end State

namespace Evaluation

theorem runFrom_confined (index : Nat) (s : State) (anchored : Anchored dir base s.files)
    (stored : s.memory.LiesUnder dir) (statements : List Statement)
    (inner : ∀ text ∈ givenPaths dir s statements, (Path.ofText text).IsInner) (k : Nat) :
    Confined base s.files (runFrom dir index s (statements.take k)).state.files ∧
      (runFrom dir index s (statements.take k)).state.memory.LiesUnder dir := by
  induction statements generalizing index s k with
  | nil =>
    rw [List.take_nil]
    exact ⟨.refl anchored.proper, stored⟩
  | cons stmt rest ih =>
    cases k with
    | zero => exact ⟨.refl anchored.proper, stored⟩
    | succ k =>
      rw [List.take_succ_cons, runFrom]
      rw [givenPaths] at inner
      cases stepped : s.step dir stmt with
      | error e => exact ⟨.refl anchored.proper, stored⟩
      | ok next =>
        obtain ⟨s', outcome⟩ := next
        rw [stepped] at inner
        obtain ⟨done, stored'⟩ := State.step_confined anchored stored stmt s' outcome
          (fun text given => inner text (List.mem_append_left _ given)) stepped
        obtain ⟨later, results⟩ := ih (index + 1) s' (anchored.confined done) stored'
          (fun text given => inner text (List.mem_append_right _ given)) k
        exact ⟨done.trans later, results⟩

/-- A program that is given only relative paths that never go up keeps to its working directory:
after any number of statements, all calls have touched nothing but what lies strictly below it,
so all else is as it was, and all results lie under it. -/
theorem run_stays_below (p : Program) (s : State) (dir : Path) (base : Location)
    (proper : s.files.tree.IsProper) (absolute : dir.isAbsolute = true)
    (located : Place.locate s.files.tree true dir = .ok base)
    (there : s.files.tree.isDirectory base = true) (noResults : s.memory.results = .empty)
    (inner : ∀ text ∈ givenPaths dir s p.statements, (Path.ofText text).IsInner) (k : Nat) :
    let after := (run dir s { p with statements := p.statements.take k }).state
    ChangesBelow base s.files after.files ∧
      (∀ l, ¬ LiesBelow base l → after.files.tree.get? l = s.files.tree.get? l) ∧
      ∀ name result, after.memory.results.find? name = some result → result.LiesUnder dir := by
  have stored : s.memory.LiesUnder dir := by
    intro name result found
    rw [noResults] at found
    cases found
  obtain ⟨done, results⟩ := runFrom_confined 0 s (anchored_of_locate proper absolute located there)
    stored p.statements inner k
  exact ⟨done.changes, done.changes.get?, results⟩

def errands : Program where
  statements := [
    .assign "place" "docs" .zero,
    .instruction ⟨"make", .createFile,
      [⟨"namefile", "list", .zero⟩, ⟨"path", Reference.ofName "place", .zero⟩], .zero⟩,
    .execute "make" none .zero,
    .instruction ⟨"gather", .group,
      [⟨"group_target", "make", .zero⟩, ⟨"path", "box", .zero⟩, ⟨"mode", "move", .zero⟩], .zero⟩,
    .execute "gather" none .zero,
    .instruction ⟨"raise", .rename,
      [⟨"path", "gather", .zero⟩, ⟨"mode", "upper_case", .zero⟩], .zero⟩,
    .execute "raise" none .zero]
  span := .zero

def desk : State where
  files := {
    tree := .ofList [(["note"], .file ⟨#[1]⟩), (["work"], .directory),
      (["work", "list"], .file "one\n./two\n".toUTF8)]
    clock := ⟨2024, 1, 1, 0, 0, 0⟩ }

theorem run_stays_below_errands :
    desk.files.tree.IsProper ∧ (Path.ofText "/work").isAbsolute = true ∧
      Place.locate desk.files.tree true (.ofText "/work") = .ok ["work"] ∧
      desk.files.tree.isDirectory ["work"] = true ∧ desk.memory.results = .empty ∧
      (∀ text ∈ givenPaths (.ofText "/work") desk errands.statements, (Path.ofText text).IsInner) ∧
      let after := (run (.ofText "/work") desk errands).state
      after.files.tree.contains ["work", "box", "TWO"] = true ∧
        ChangesBelow ["work"] desk.files after.files ∧
        after.files.tree.get? ["note"] = desk.files.tree.get? ["note"] ∧
        ∃ result, after.memory.results.find? "gather" = some result ∧
          result.LiesUnder (.ofText "/work") := by
  have proper : desk.files.tree.IsProper := by decide +kernel
  have located : Place.locate desk.files.tree true (.ofText "/work") = .ok ["work"] := by
    decide +kernel
  have inner : ∀ text ∈ givenPaths (.ofText "/work") desk errands.statements,
      (Path.ofText text).IsInner := by
    decide +kernel
  have stored : ((run (.ofText "/work") desk errands).state.memory.results.find?
      "gather").isSome = true := by
    decide +kernel
  obtain ⟨result, found⟩ := Option.isSome_iff_exists.mp stored
  have whole : (⟨errands.statements.take errands.statements.length, errands.span⟩ : Program) =
      errands := by
    rw [List.take_length]
  obtain ⟨changes, kept, under⟩ := run_stays_below errands desk (.ofText "/work") ["work"] proper
    (by decide) located (by decide +kernel) rfl inner errands.statements.length
  rw [whole] at changes kept under
  exact ⟨proper, by decide, located, by decide +kernel, rfl, inner, by decide +kernel, changes,
    kept ["note"] (by decide +kernel), result, found, under _ _ found⟩

end Evaluation
end SimpleFiles
