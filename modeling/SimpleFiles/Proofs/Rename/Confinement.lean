import SimpleFiles.Proofs.Execution.GivenPaths
import SimpleFiles.Proofs.FileSystem.Confinement
import SimpleFiles.Proofs.Rename.Keeping
import SimpleFiles.Proofs.Rename.Order

/-! Renaming stays below the working directory when the path does, and when all that earlier
results list lies there. -/
namespace SimpleFiles.Rename

open FileTree FileSystem

variable {dir : Path} {base : Location} {fs fs' : FileSystem}

theorem isBelow_newPath? (mode : CaseMode) (old new : Path)
    (entryNames : ∀ e ∈ fs.tree.entries, ∀ s ∈ e.1, IsEntryName s) (below : old.IsBelow dir)
    (hnew : newPath? mode old = some new) (h : fs.rename old new = .ok fs') :
    new.IsBelow dir := by
  obtain ⟨names, filled, extended⟩ := below
  obtain ⟨source, target, n, hold, -, -, named, -⟩ := names_of_newPath? entryNames hnew h
  obtain ⟨front, slashes, split, allEmpty, -⟩ := LastName.of_ofPath hold
  have allIdle : ∀ s ∈ slashes, Path.isIdle s = true := by
    intro s hs
    rw [allEmpty s hs]
    rfl
  have path : old = ⟨front ++ source.name :: slashes⟩ := by rw [← split]
  rw [path] at hnew extended
  rw [newPath?_named mode front slashes source.name named allIdle new hnew]
  exact extended.renamed filled named (named.renamed mode) allIdle

theorem confined_renameEach (mode : CaseMode) (anchored : Anchored dir base fs)
    (entries : List Path) (below : ∀ entry ∈ entries, entry.IsBelow dir) :
    Confined base fs (renameEach mode fs entries).1 := by
  induction entries generalizing fs with
  | nil => exact .refl anchored.proper
  | cons old rest ih =>
    obtain ⟨first, others⟩ := List.forall_mem_cons.mp below
    rw [renameEach]
    split
    · exact ih anchored others
    · rename_i new hnew
      split
      · exact .refl anchored.proper
      · rename_i fs₁ renamed
        obtain ⟨names', filled', arrives⟩ :=
          isBelow_newPath? mode old new anchored.proper.isEntryName_of_mem first hnew renamed
        obtain ⟨names, filled, leaves⟩ := first
        have done := confined_rename anchored.proper old new leaves.plain arrives.plain
          (anchored.liesBelow leaves filled) (anchored.liesBelow arrives filled') renamed
        exact done.trans (ih (anchored.confined done) others)

/-- A plan is made where the parameters give a filter, a mode and the path of a directory that is
there, and chooses what the filter admits. -/
theorem plan_eq_ok_iff (memory : Memory) (declared : Instruction) (condition : Option Condition)
    (p : Plan) :
    plan fs dir memory declared condition = .ok p ↔ ∃ params path mode f entries,
      declared.merged .rename condition memory = .ok params ∧
      params.find? "path" = some path ∧ params.find? "mode" = some mode ∧
      Filter.ofParameters params ownKeys = .ok f ∧
      fs.pathExists (target dir memory path).1 = true ∧
      fs.isDirectory (target dir memory path).1 = true ∧
      candidates fs declared.name (isRecursive params) (target dir memory path).1
        (target dir memory path).2 = .ok entries ∧
      p = ⟨.ofText mode, deepestFirst (f.apply fs entries)⟩ := by
  constructor
  · intro h
    unfold plan at h
    simp only [bind, Except.bind, pure, Except.pure] at h
    split at h
    · cases h
    rename_i params merged
    split at h
    · rename_i path mode given moded
      split at h
      · cases h
      rename_i f read
      split at h
      · cases h
      rename_i there
      split at h
      · cases h
      rename_i directory
      split at h
      · cases h
      rename_i entries chosen
      cases h
      rw [Bool.not_eq_true, Bool.not_eq_false'] at there directory
      exact ⟨params, path, mode, f, entries, eq_of_mapError_ok _ _ _ merged, given, moded,
        eq_of_mapError_ok _ _ _ read, there, directory, chosen, rfl⟩
    · cases h
  · rintro ⟨params, path, mode, f, entries, merged, given, moded, read, there, directory, chosen, rfl⟩
    have merged' : (Parameters.merge .rename declared.params (condition.map (·.params))
        memory.env) = .ok params := merged
    unfold plan
    simp only [merged', given, moded, read, there, directory, chosen, bind, Except.bind,
      Except.mapError, pure, Except.pure, Bool.not_true, Bool.false_eq_true, if_false]

theorem plan_cases (memory : Memory) (declared : Instruction) (condition : Option Condition)
    (p : Plan) (h : plan fs dir memory declared condition = .ok p) :
    ∃ params path entries, declared.merged .rename condition memory = .ok params ∧
      params.find? "path" = some path ∧
      candidates fs declared.name (isRecursive params) (target dir memory path).1
        (target dir memory path).2 = .ok entries ∧
      ∀ entry ∈ p.entries, entry ∈ entries := by
  obtain ⟨params, path, -, f, entries, merged, given, -, -, -, -, chosen, rfl⟩ :=
    (plan_eq_ok_iff memory declared condition p).mp h
  exact ⟨params, path, entries, merged, given, chosen, fun entry member =>
    List.mem_of_mem_filter ((deepestFirst_perm _).mem_iff.mp member)⟩

theorem isBelow_of_candidates (anchored : Anchored dir base fs) (memory : Memory)
    (stored : memory.LiesUnder dir) (instruction : String) (recursive : Bool) (path : String)
    (inner : (Path.ofText path).IsInner) (entries : List Path)
    (h : candidates fs instruction recursive (target dir memory path).1
      (target dir memory path).2 = .ok entries) : ∀ entry ∈ entries, entry.IsBelow dir := by
  have source : (∃ names, dir.Extends names (target dir memory path).1) ∧
      ∀ result, (target dir memory path).2 = some result → result.LiesUnder dir := by
    unfold target
    split
    · rename_i result named
      refine ⟨(stored _ _ named).base, ?_⟩
      rintro _ ⟨⟩
      exact stored _ _ named
    · have self := anchored.rooted.self
      exact ⟨⟨_, self.join_ofText path inner⟩, fun result none => by cases none⟩
  obtain ⟨⟨names, extended⟩, chained⟩ := source
  unfold candidates at h
  split at h
  · cases h
    exact isBelow_of_walk anchored.proper.isEntryName_of_mem extended
  · split at h
    · rename_i result named
      cases h
      exact (chained result named).entries
    · exact isBelow_of_children anchored.proper.isEntryName_of_mem extended entries
        (eq_of_mapError_ok _ _ _ h)

theorem run_confined (anchored : Anchored dir base fs) (memory : Memory)
    (stored : memory.LiesUnder dir) (declared : Instruction) (condition : Option Condition)
    (inner : ∀ text ∈ declared.givenPaths .rename fs dir memory condition,
      (Path.ofText text).IsInner) :
    Confined base fs (run fs dir memory declared condition).1 := by
  rw [run]
  cases planned : plan fs dir memory declared condition with
  | error e => exact .refl anchored.proper
  | ok p =>
    obtain ⟨params, path, entries, merged, given, chosen, kept⟩ :=
      plan_cases memory declared condition p planned
    have below := isBelow_of_candidates anchored memory stored declared.name _ path
      (inner path (Instruction.mem_givenPaths merged (by decide) given)) entries chosen
    exact confined_renameEach p.mode anchored p.entries fun entry member =>
      below entry (kept entry member)

end SimpleFiles.Rename
