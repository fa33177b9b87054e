import SimpleFiles.Proofs.Execution.Effects
import SimpleFiles.Proofs.Group.Copying

/-! What a group does and what it records. The entries to choose from have one of three sources,
a filter chooses among them before anything is touched, and each entry that is chosen takes its
turn: it is kept in its place, or carried to its destination, or left out. -/
namespace SimpleFiles.Group

open FileTree FileSystem

/-- The source of the entries to choose from. Only the last looks at what is on disk. -/
inductive Chosen (fs : FileSystem) (dir : Path) (memory : Memory) (instruction : String)
    (params : Parameters) : ResultSet → Prop
  | own {result : ResultSet} (stored : memory.results.find? instruction = some result) :
    Chosen fs dir memory instruction params result
  | named {result : ResultSet} {target : String}
    (noOwn : memory.results.find? instruction = none)
    (given : params.find? "group_target" = some target)
    (stored : memory.results.find? target = some result) :
    Chosen fs dir memory instruction params result
  | walked {target : String} (noOwn : memory.results.find? instruction = none)
    (given : params.find? "group_target" = some target)
    (noResult : memory.results.find? target = none)
    (directory : fs.isDirectory (dir.join (.ofText target)) = true) :
    Chosen fs dir memory instruction params
      ⟨dir.join (.ofText target), fs.walk (dir.join (.ofText target))⟩

theorem chosen_iff (fs : FileSystem) (dir : Path) (memory : Memory) (instruction : String)
    (params : Parameters) (source : ResultSet) :
    candidates fs dir memory instruction params = .ok source ↔
      Chosen fs dir memory instruction params source := by
  constructor
  · intro h
    unfold candidates at h
    split at h
    · rename_i own
      cases h
      exact .own own
    rename_i noOwn
    split at h
    · cases h
    rename_i target given
    split at h
    · rename_i named
      cases h
      exact .named noOwn given named
    · rename_i noResult
      simp only at h
      split at h
      · rename_i directory
        cases h
        exact .walked noOwn given noResult directory
      · cases h
  · intro h
    unfold candidates
    cases h with
    | own stored => rw [stored]
    | named noOwn given stored => simp only [noOwn, given, stored]
    | walked noOwn given noResult directory =>
      simp only [noOwn, given, noResult, directory, if_true]

/-- A plan is made where the parameters give a filter, a source, a path and a mode, and chooses
what the filter admits. -/
theorem plan_eq_ok_iff (fs : FileSystem) (dir : Path) (memory : Memory) (declared : Instruction)
    (condition : Option Condition) (p : Plan) :
    plan fs dir memory declared condition = .ok p ↔ ∃ params f source path mode,
      declared.merged .group condition memory = .ok params ∧
      Filter.ofParameters params ownKeys = .ok f ∧
      Chosen fs dir memory declared.name params source ∧ params.find? "path" = some path ∧
      params.find? "mode" = some mode ∧
      p = ⟨.ofText mode, source.entries.filter (f.accepts fs), source.base,
        dir.join (.ofText path)⟩ := by
  constructor
  · intro h
    unfold plan at h
    simp only [bind, Except.bind, pure, Except.pure] at h
    split at h
    · cases h
    rename_i params merged
    split at h
    · cases h
    rename_i f read
    split at h
    · cases h
    rename_i source chosen
    split at h
    · cases h
    · cases h
    · rename_i path mode given moving
      cases h
      exact ⟨params, f, source, path, mode, eq_of_mapError_ok _ _ _ merged,
        eq_of_mapError_ok _ _ _ read, (chosen_iff ..).mp chosen, given, moving, rfl⟩
  · rintro ⟨params, f, source, path, mode, merged, read, chosen, given, moving, rfl⟩
    have merged' : (Parameters.merge .group declared.params (condition.map (·.params))
        memory.env) = .ok params := merged
    unfold plan
    simp only [merged', read, (chosen_iff ..).mpr chosen, given, moving, bind, Except.bind,
      Except.mapError, pure, Except.pure, Filter.apply]

section
variable (mode : GroupMode) (fs : FileSystem) (entry target : Path)

/-- The directory that is to hold the target is there or can be made. -/
def MakesRoom (fs' : FileSystem) : Prop :=
  target.parent? = none ∧ fs' = fs ∨
    ∃ parent, target.parent? = some parent ∧ fs.createAll parent = (fs', .ok ())

/-- An entry gets to its target: it is renamed, or where that fails copied and then removed, or it
is copied, a directory without what it holds. -/
inductive Delivers : GroupMode → FileSystem → Prop
  | renamed {fs' : FileSystem} (moved : fs.rename entry target = .ok fs') : Delivers .move fs'
  | replaced {fs₁ fs' : FileSystem} {e : FileError} (stuck : fs.rename entry target = .error e)
    (copied : fs.copyFile entry target = .ok fs₁) (removed : fs₁.removeFile entry = .ok fs') :
    Delivers .move fs'
  | copied {fs' : FileSystem} (copied : fs.copyFile entry target = .ok fs') : Delivers .copy fs'
  | made {fs' : FileSystem} (directory : fs.isDirectory entry = true)
    (created : fs.createAll target = (fs', .ok ())) : Delivers .copy fs'

/-- An entry is carried to its target, once there is room for it. -/
def Carries (fs' : FileSystem) : Prop :=
  ∃ fs₁, MakesRoom fs target fs₁ ∧ Delivers fs₁ entry target mode fs'

end

section
variable {mode : GroupMode} {fs fs' : FileSystem} {entry target : Path}

theorem makesRoom_iff : MakesRoom fs target fs' ↔ makeParent fs target = (fs', true) := by
  unfold MakesRoom makeParent
  cases target.parent? with
  | none => simp [eq_comm]
  | some parent =>
    cases made : fs.createAll parent with
    | mk fs₁ outcome => cases outcome <;> simp [made]

theorem not_isDirectory_of_isFile (file : fs.isFile entry = true) :
    fs.isDirectory entry = false := by
  unfold FileSystem.isFile at file
  unfold FileSystem.isDirectory
  split at file
  · rename_i l located
    obtain ⟨content, found⟩ := (fs.tree.isFile_iff l).mp file
    simp [FileTree.isDirectory, found, Node.isDirectory]
  · cases file

theorem delivers_move_iff :
    Delivers fs entry target .move fs' ↔ moveEntry fs entry target = (fs', true) := by
  constructor
  · intro h
    unfold moveEntry
    cases h with
    | renamed moved => rw [moved]
    | replaced stuck copied removed =>
      simp only [stuck, (copyFile_grows entry target copied).1, if_true, copied, removed]
  · intro h
    unfold moveEntry at h
    split at h
    · rename_i moved
      cases h
      exact .renamed moved
    rename_i e stuck
    split at h
    · split at h
      · cases h
      rename_i fs₁ copied
      split at h
      · cases h
      · rename_i removed
        cases h
        exact .replaced stuck copied removed
    · cases h

theorem delivers_copy_iff :
    Delivers fs entry target .copy fs' ↔ copyEntry fs entry target = (fs', true) := by
  constructor
  · intro h
    unfold copyEntry
    cases h with
    | copied copied =>
      rw [not_isDirectory_of_isFile (copyFile_grows entry target copied).1]
      simp only [Bool.false_eq_true, if_false, copied]
    | made directory created => simp only [directory, if_true, created]
  · intro h
    unfold copyEntry at h
    split at h
    · rename_i directory
      split at h
      · rename_i created
        cases h
        exact .made directory created
      · cases h
    · split at h
      · rename_i copied
        cases h
        exact .copied copied
      · cases h

theorem carries_iff (there : fs.pathExists entry = true) (elsewhere : target.same entry = false) :
    Carries mode fs entry target fs' ↔ transfer mode fs entry target = (fs', true) := by
  unfold Carries transfer
  simp only [makesRoom_iff, there, elsewhere, Bool.not_true, Bool.false_eq_true, if_false]
  cases made : makeParent fs target with
  | mk fs₁ isRoom =>
    cases isRoom with
    | false => simp
    | true =>
      cases mode with
      | move => simp [delivers_move_iff]
      | copy => simp [delivers_copy_iff]

theorem grows_of_failed (h : transfer mode fs entry target = (fs', false)) :
    fs.tree.Grows (WritesTo fs' entry target) fs'.tree := by
  have made := makeParent_grows (WritesTo fs' entry target) fs target
  rcases transfer_cases h with
    ⟨-, rfl | rfl⟩ | ⟨done, -⟩ | ⟨-, ⟨-, moved⟩ | ⟨-, copied⟩⟩
  · exact .refl _ _
  · exact made
  · cases done
  · rcases moveEntry_cases moved with
      ⟨done, -⟩ | ⟨fs₁, copied, ⟨done, -⟩ | ⟨-, rfl⟩⟩ | ⟨-, rfl⟩
    · cases done
    · cases done
    · obtain ⟨file, grown⟩ := copyFile_grows entry target copied
      exact made.trans (grown.mono fun l reached => ⟨isFile_of_grows grown entry file, reached⟩)
    · exact made
  · have grown := copyEntry_grows (makeParent fs target).1 entry target
    rw [copied] at grown
    exact made.trans grown

end

section
variable (mode : GroupMode) (base output : Path)

/-- What becomes of entries when they take their turns, and which of them are kept. One is left
out only if it is not there when its turn comes, or if it cannot be carried to its destination;
those after it take their turns all the same. -/
inductive Transfers : FileSystem → List Path → List Path → FileSystem → Prop
  | done (fs : FileSystem) : Transfers fs [] [] fs
  | gone {fs fs' : FileSystem} {entry : Path} {rest kept : List Path}
    (missing : fs.pathExists entry = false) (later : Transfers fs rest kept fs') :
    Transfers fs (entry :: rest) kept fs'
  | inPlace {fs fs' : FileSystem} {entry : Path} {rest kept : List Path}
    (there : fs.pathExists entry = true)
    (placed : (destination entry base output).same entry = true)
    (later : Transfers fs rest kept fs') : Transfers fs (entry :: rest) (entry :: kept) fs'
  | carried {fs fs₁ fs' : FileSystem} {entry : Path} {rest kept : List Path}
    (there : fs.pathExists entry = true)
    (elsewhere : (destination entry base output).same entry = false)
    (carried : Carries mode fs entry (destination entry base output) fs₁)
    (later : Transfers fs₁ rest kept fs') : Transfers fs (entry :: rest) (entry :: kept) fs'
  | failed {fs fs₁ fs' : FileSystem} {entry : Path} {rest kept : List Path}
    (there : fs.pathExists entry = true)
    (elsewhere : (destination entry base output).same entry = false)
    (stuck : ∀ fs₂, ¬ Carries mode fs entry (destination entry base output) fs₂)
    (stays : fs.tree.Grows (WritesTo fs₁ entry (destination entry base output)) fs₁.tree)
    (later : Transfers fs₁ rest kept fs') : Transfers fs (entry :: rest) kept fs'

variable {mode base output}

theorem Transfers.sublist {fs fs' : FileSystem} {entries kept : List Path}
    (h : Transfers mode base output fs entries kept fs') : kept.Sublist entries := by
  induction h with
  | done fs => exact .slnil
  | gone _ _ ih | failed _ _ _ _ _ ih => exact ih.cons _
  | inPlace _ _ _ ih | carried _ _ _ _ ih => exact ih.cons_cons _

theorem transfers_cons {fs : FileSystem} {entry : Path} {rest kept : List Path}
    {fs' : FileSystem} (h : Transfers mode base output
      (transfer mode fs entry (destination entry base output)).1 rest kept fs') :
    Transfers mode base output fs (entry :: rest)
      (if (transfer mode fs entry (destination entry base output)).2 then entry :: kept else kept)
      fs' := by
  cases there : fs.pathExists entry with
  | false =>
    have skipped : transfer mode fs entry (destination entry base output) = (fs, false) := by
      rw [transfer, there]
      rfl
    rw [skipped] at h ⊢
    exact .gone there h
  | true =>
    cases placed : (destination entry base output).same entry with
    | true =>
      have stayed : transfer mode fs entry (destination entry base output) = (fs, true) := by
        rw [transfer, there, placed]
        rfl
      rw [stayed] at h ⊢
      exact .inPlace there placed h
    | false =>
      cases tried : transfer mode fs entry (destination entry base output) with
      | mk fs₁ isDone =>
        rw [tried] at h
        cases isDone with
        | true => exact .carried there placed ((carries_iff there placed).mpr tried) h
        | false =>
          refine .failed there placed (fun fs₂ carried => ?_) (grows_of_failed tried) h
          have done := (carries_iff there placed).mp carried
          rw [tried] at done
          cases done

theorem transferEach_transfers (mode : GroupMode) (base output : Path) (fs : FileSystem)
    (entries : List Path) :
    ∃ kept, Transfers mode base output fs entries kept (transferEach mode base output fs entries).1 ∧
      (transferEach mode base output fs entries).2 = kept.map (destination · base output) := by
  induction entries generalizing fs with
  | nil => exact ⟨[], .done fs, rfl⟩
  | cons entry rest ih =>
    rw [transferEach_cons]
    obtain ⟨kept, later, recorded⟩ := ih (transfer mode fs entry (destination entry base output)).1
    refine ⟨_, transfers_cons later, ?_⟩
    simp only [recorded]
    split <;> rfl

end

theorem isOk_perform_iff (fs : FileSystem) (instruction : String) (p : Plan) :
    (perform fs instruction p).2.isOk = true ↔ (fs.createAll p.output).2 = .ok () := by
  unfold perform
  cases made : fs.createAll p.output with
  | mk fs₁ outcome => cases outcome <;> simp [Except.isOk, Except.toBool]

end SimpleFiles.Group

namespace SimpleFiles.Execution

open SimpleFiles.Group

section
variable (fs : FileSystem) (dir : Path) (memory : Memory) (declared : Instruction)
  (condition : Option Condition)

/-- A group completes as soon as it has a plan and its output can be made. The entries that the
filter admits, from one of three sources, then take their turns; what is stored are the
destinations of those that are kept, in their order. -/
theorem run_group_transfers (action : declared.action = .group) :
    ((run fs dir memory declared condition).2.isOk = true ↔
      ∃ p, plan fs dir memory declared condition = .ok p ∧
        (fs.createAll p.output).2 = .ok ()) ∧
    ∀ fs' memory', run fs dir memory declared condition = (fs', .ok memory') →
      ∃ params f source path mode fs₀ kept,
        declared.merged .group condition memory = .ok params ∧
        Filter.ofParameters params ownKeys = .ok f ∧
        Chosen fs dir memory declared.name params source ∧
        params.find? "path" = some path ∧ params.find? "mode" = some mode ∧
        let output := dir.join (.ofText path)
        fs.createAll output = (fs₀, .ok ()) ∧
        Transfers (.ofText mode) source.base output fs₀ (source.entries.filter (f.accepts fs)) kept
          fs' ∧
        kept.Sublist source.entries ∧ (∀ entry ∈ kept, f.accepts fs entry = true) ∧
        memory' = memory.store declared.name
          ⟨output, kept.map (destination · source.base output)⟩ := by
  have acts := act_group fs dir memory declared condition action
  constructor
  · have same : (run fs dir memory declared condition).2.isOk =
        (Group.run fs dir memory declared condition).2.isOk := by
      rw [run, acts]
      cases Group.run fs dir memory declared condition with
      | mk fs₁ outcome => cases outcome <;> rfl
    rw [same, Group.run]
    cases plan fs dir memory declared condition with
    | error e => simp [Except.isOk, Except.toBool]
    | ok p => simp [isOk_perform_iff]
  · intro fs' memory' h
    obtain ⟨result, grouped, rfl⟩ := (run_storing_iff _ _ _ _ _ _ _ acts _).mp h
    unfold Group.run at grouped
    split at grouped
    · cases grouped
    rename_i p planned
    obtain ⟨params, f, source, path, mode, merged, read, chosen, given, moving, rfl⟩ :=
      (plan_eq_ok_iff fs dir memory declared condition p).mp planned
    unfold perform at grouped
    split at grouped
    · cases grouped
    rename_i fs₀ made
    cases grouped
    obtain ⟨kept, transfers, recorded⟩ :=
      transferEach_transfers (.ofText mode) source.base (dir.join (.ofText path)) fs₀
        (source.entries.filter (f.accepts fs))
    have among := transfers.sublist
    refine ⟨params, f, source, path, mode, fs₀, kept, merged, read, chosen, given, moving, made,
      transfers, among.trans List.filter_sublist, ?_, ?_⟩
    · intro entry member
      exact (List.mem_filter.mp (among.subset member)).2
    · rw [← recorded]

end

theorem run_group_transfers_shelf : ∃ fs₀ fs' kept,
    (gather "docs" "docs/box" "move" []).action = .group ∧
      (run shelf (.ofText "/") .empty (gather "docs" "docs/box" "move" []) none).1 = fs' ∧
      Transfers .move ⟨["", "docs"]⟩ ⟨["", "docs", "box"]⟩ fs₀
        [⟨["", "docs", "box"]⟩, ⟨["", "docs", "box", "note"]⟩, ⟨["", "docs", "note"]⟩] kept fs' ∧
      kept.map (destination · ⟨["", "docs"]⟩ ⟨["", "docs", "box"]⟩) =
        [⟨["", "docs", "box", "box", "note"]⟩, ⟨["", "docs", "box", "note"]⟩] := by
  have completed : (run shelf (.ofText "/") .empty (gather "docs" "docs/box" "move" []) none).2 =
      .ok (Memory.empty.store "gather" ⟨⟨["", "docs", "box"]⟩,
        [⟨["", "docs", "box", "box", "note"]⟩, ⟨["", "docs", "box", "note"]⟩]⟩) := by
    decide +kernel
  have planned : plan shelf (.ofText "/") .empty (gather "docs" "docs/box" "move" []) none =
      .ok { shelfPlan with mode := .move } := by
    decide +kernel
  generalize first : run shelf (.ofText "/") .empty (gather "docs" "docs/box" "move" []) none =
    ran at completed
  obtain ⟨fs', outcome⟩ := ran
  obtain rfl : outcome = .ok _ := completed
  obtain ⟨params, f, source, path, mode, fs₀, kept, merged, read, chosen, given, moving, made,
    transfers, -, -, stored⟩ := (run_group_transfers shelf (.ofText "/") .empty
      (gather "docs" "docs/box" "move" []) none rfl).2 fs' _ first
  have same := planned.symm.trans ((plan_eq_ok_iff ..).mpr
    ⟨params, f, source, path, mode, merged, read, chosen, given, moving, rfl⟩)
  obtain ⟨moves, entries, base, output⟩ := Plan.mk.inj (Except.ok.inj same)
  rw [← moves, ← entries, ← base, ← output] at transfers
  rw [← base, ← output] at stored
  refine ⟨fs₀, fs', kept, rfl, rfl, transfers, ?_⟩
  have found := congrArg (fun memory => memory.results.find? "gather") stored
  simp only [Memory.store, show (gather "docs" "docs/box" "move" []).name = "gather" from rfl,
    NameTable.find?_insert, if_true, Option.some.injEq, ResultSet.mk.injEq] at found
  exact found.2.symm

end SimpleFiles.Execution
