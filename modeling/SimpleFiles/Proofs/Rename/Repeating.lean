import SimpleFiles.Proofs.Execution.Effects
import SimpleFiles.Proofs.Rename.Settling

/-! Renaming twice. The second time nothing is left to be renamed, if the path of each entry could
be asked for the first time; and nothing is looked for if the path of the directory leads there no
longer. -/
namespace SimpleFiles.Rename

open FileTree FileSystem

theorem renameEach_of_kept (mode : CaseMode) (fs : FileSystem) (entries : List Path)
    (kept : ∀ entry ∈ entries, newPath? mode entry = none) :
    renameEach mode fs entries = (fs, .ok ()) := by
  induction entries with
  | nil => rfl
  | cons entry rest ih =>
    obtain ⟨first, others⟩ := List.forall_mem_cons.mp kept
    rw [renameEach, first]
    exact ih others

section
variable {fs fs' : FileSystem} {dir : Path} {memory : Memory} {declared : Instruction}
  {condition : Option Condition} {params : Parameters} {path mode : String} {f : Filter}

/-- Where nothing is left to be renamed, a rename leaves it at that; it is refused if the path of
the directory leads there no longer. -/
theorem run_of_settled (proper : fs.tree.IsProper) (looks : f.LooksAtNames)
    (merged : declared.merged .rename condition memory = .ok params)
    (given : params.find? "path" = some path) (moded : params.find? "mode" = some mode)
    (read : Filter.ofParameters params ownKeys = .ok f)
    (own : isRecursive params = true ∨ (target dir memory path).2 = none)
    (there : fs.tree.isDirectory (wayEnd [] (target dir memory path).1.segments) = true)
    (settled : ∀ names, ¬ (Search.ofParameters dir memory params path mode f).Wants fs.tree names) :
    run fs dir memory declared condition = (fs,
      if fs.isDirectory (target dir memory path).1 then .ok ()
      else .error (.refused declared.name .pathMissing)) := by
  split
  · rename_i directory
    obtain ⟨entries, chosen, listed⟩ :=
      (Search.ofParameters dir memory params path mode f).exists_candidates proper directory
        declared.name _ own
    obtain ⟨l, located, -⟩ := fs.exists_locate_of_isDirectory _ directory
    have planned := (plan_eq_ok_iff memory declared condition _).mpr ⟨params, path, mode, f, entries,
      merged, given, moded, read, fs.pathExists_of_locate _ l located, directory, chosen, rfl⟩
    rw [run, planned]
    refine renameEach_of_kept _ fs _ fun entry member => ?_
    obtain ⟨inside, accepted⟩ :=
      List.mem_filter.mp ((deepestFirst_perm _).mem_iff.mp member)
    obtain ⟨names, spans, -, rfl⟩ := (listed entry).mp inside
    exact (Search.wants_or_kept proper looks spans accepted).resolve_left (settled names)
  · rename_i lost
    have missing : fs.pathExists (target dir memory path).1 = false := by
      by_contra found
      rw [Bool.not_eq_false] at found
      obtain ⟨l, located⟩ := fs.exists_locate_of_pathExists _ found
      obtain ⟨-, walked⟩ := (Place.locate_eq_ok_iff fs.tree proper.noLinks true _ l).mp located
      rw [← fs.tree.eq_wayEnd_of_walkTo? [] l _ walked,
        ← fs.isDirectory_of_locate _ l located] at there
      exact lost there
    have merged' : (Parameters.merge .rename declared.params (condition.map (·.params))
        memory.env) = .ok params := merged
    have refused : plan fs dir memory declared condition =
        .error (.refused declared.name .pathMissing) := by
      unfold plan
      simp only [merged', given, moded, read, missing, bind, Except.bind, Except.mapError,
        Bool.not_false, if_true]
      rfl
    rw [run, refused]

theorem run_again (proper : fs.tree.IsProper)
    (merged : declared.merged .rename condition memory = .ok params)
    (noDate : params.find? "modified_date" = none) (noSize : params.find? "size" = none)
    (given : params.find? "path" = some path)
    (own : isRecursive params = true ∨ (target dir memory path).2 = none)
    (found : ∀ entries, candidates fs declared.name (isRecursive params) (target dir memory path).1
      (target dir memory path).2 = .ok entries → ∀ entry ∈ entries, fs.pathExists entry = true)
    (h : run fs dir memory declared condition = (fs', .ok ())) :
    run fs' dir memory declared condition = (fs',
        if fs'.isDirectory (target dir memory path).1 then .ok ()
        else .error (.refused declared.name .pathMissing)) ∧
      (".." ∉ (target dir memory path).1.segments →
        fs'.isDirectory (target dir memory path).1 = true) := by
  obtain ⟨mode, f, moded, read, looks, asked, proper', there, settled⟩ :=
    settled_of_run proper merged noDate noSize given own found h
  refine ⟨run_of_settled proper' looks merged given moded read own there settled, fun down => ?_⟩
  rw [wayEnd_of_down _ fun up => down (List.mem_of_mem_filter up)] at there
  exact isDirectory_of_steps proper' _ asked there

end

end SimpleFiles.Rename

namespace SimpleFiles.Execution

open FileTree FileSystem Rename

section
variable (fs : FileSystem) (dir : Path) (memory : Memory) (declared : Instruction)
  (condition : Option Condition)

/-- An execution that completes does so again, and leaves the tree as it is. -/
def settlesAtOnce : Bool :=
  match run fs dir memory declared condition with
  | (_, .error _) => true
  | (fs', .ok memory') =>
    match run fs' dir memory' declared condition with
    | (_, .error _) => false
    | (fs'', .ok _) => fs''.tree = fs'.tree

/-- Renaming again, with a filter that looks at no time and no size, changes nothing once all the
entries to choose from were found by their paths. It completes if the path still leads to the
directory, and is refused otherwise; a path that never goes up still leads there. -/
theorem run_rename_again (proper : fs.tree.IsProper) (action : declared.action = .rename)
    (params : Parameters) (merged : declared.merged .rename condition memory = .ok params)
    (noDate : params.find? "modified_date" = none) (noSize : params.find? "size" = none)
    (path : String) (given : params.find? "path" = some path)
    (own : isRecursive params = true ∨ (target dir memory path).2 = none)
    (found : ∀ entries, candidates fs declared.name (isRecursive params) (target dir memory path).1
      (target dir memory path).2 = .ok entries → ∀ entry ∈ entries, fs.pathExists entry = true)
    (fs' : FileSystem) (memory' : Memory)
    (h : run fs dir memory declared condition = (fs', .ok memory')) :
    run fs' dir memory' declared condition = (fs',
        if fs'.isDirectory (target dir memory path).1 then .ok memory'
        else .error (.refused declared.name .pathMissing)) ∧
      (".." ∉ (target dir memory path).1.segments →
        fs'.isDirectory (target dir memory path).1 = true) := by
  rw [run_rename _ _ _ _ _ action] at h
  obtain ⟨_, renamed, rfl⟩ := exists_of_map_ok _ _ _ _ h
  obtain ⟨again, stays⟩ := run_again proper merged noDate noSize given own found renamed
  refine ⟨?_, stays⟩
  rw [run_rename _ _ _ _ _ action, again]
  split
  · rfl
  · rfl

end

theorem run_rename_again_nested : ∃ fs',
    nested.tree.IsProper ∧ (raise "docs").action = .rename ∧
      run nested (.ofText "/") .empty (raise "docs") none = (fs', .ok .empty) ∧
      fs'.tree = .ofList [(["docs"], .directory), (["docs", "OLD"], .directory),
        (["docs", "OLD", "NOTE.txt"], .file .empty)] ∧
      run fs' (.ofText "/") .empty (raise "docs") none = (fs', .ok .empty) := by
  have proper : nested.tree.IsProper := by decide +kernel
  have merged : (raise "docs").merged .rename none .empty =
      .ok ⟨[("mode", "upper_case"), ("path", "docs")]⟩ := by
    decide +kernel
  have chosen : candidates nested "raise" true ⟨["", "docs"]⟩ none =
      .ok [⟨["", "docs", "old"]⟩, ⟨["", "docs", "old", "note.txt"]⟩] := by
    decide +kernel
  have found : ∀ entry ∈ [(⟨["", "docs", "old"]⟩ : Path), ⟨["", "docs", "old", "note.txt"]⟩],
      nested.pathExists entry = true := by
    decide +kernel
  have completed : (run nested (.ofText "/") .empty (raise "docs") none).2 = .ok .empty ∧
      (run nested (.ofText "/") .empty (raise "docs") none).1.tree =
        .ofList [(["docs"], .directory), (["docs", "OLD"], .directory),
          (["docs", "OLD", "NOTE.txt"], .file .empty)] := by
    decide +kernel
  generalize first : run nested (.ofText "/") .empty (raise "docs") none = ran at completed
  obtain ⟨fs', outcome⟩ := ran
  obtain ⟨rfl, tree⟩ := completed
  obtain ⟨again, stays⟩ := run_rename_again nested (.ofText "/") .empty (raise "docs") none proper
    rfl _ merged (by decide) (by decide) "docs" (by decide) (.inl (by decide +kernel))
    (fun entries listed => Except.ok.inj (chosen.symm.trans listed) ▸ found) fs' _ first
  rw [if_pos (stays (by decide +kernel))] at again
  exact ⟨fs', proper, rfl, rfl, tree, again⟩

def upward : FileSystem where
  tree := .ofList [(["sub"], .directory)]
  clock := ⟨2024, 1, 1, 0, 0, 0⟩

section
variable (slashes : Nat)

def far : Path := ⟨"" :: "docs" :: List.replicate slashes "" ++ [""]⟩

theorem folder_far : (far slashes).folder = "" :: "docs" :: List.replicate slashes "" := by
  rw [Path.folder, far, List.getLast?_append_of_ne_nil _ (by simp)]
  simp only [List.getLast?_singleton, if_true, List.dropLast_concat]

theorem size_text_slashes (rest : List String) (filled : rest ≠ []) :
    (Path.text ⟨List.replicate slashes "" ++ rest⟩).utf8ByteSize =
      slashes + (Path.text ⟨rest⟩).utf8ByteSize := by
  induction slashes with
  | zero => rw [List.replicate_zero, List.nil_append, Nat.zero_add]
  | succ n ih =>
    obtain ⟨s, more, split⟩ := List.exists_cons_of_ne_nil
      (List.append_ne_nil_of_right_ne_nil (List.replicate n "") filled)
    rw [List.replicate_succ, List.cons_append, split, Path.text_cons, ← split,
      String.utf8ByteSize_append, String.utf8ByteSize_append, ih]
    have slash : "".utf8ByteSize + "/".utf8ByteSize = 1 := by decide
    omega

theorem size_text_far (rest : List String) (filled : rest ≠ []) :
    (Path.text ⟨"" :: "docs" :: List.replicate slashes "" ++ rest⟩).utf8ByteSize =
      slashes + 6 + (Path.text ⟨rest⟩).utf8ByteSize := by
  have front : (Path.text ⟨["", "docs"]⟩).utf8ByteSize = 5 := by decide
  have split : "" :: "docs" :: List.replicate slashes "" ++ rest =
      ["", "docs"] ++ (List.replicate slashes "" ++ rest) := rfl
  rw [split, Path.size_text_append _ _ (by simp) (List.append_ne_nil_of_right_ne_nil _ filled),
    size_text_slashes slashes rest filled, front]
  omega

theorem checkText_far (rest : List String) (filled : rest ≠ [])
    (named : ∀ s ∈ rest, s = "" ∨ IsEntryName s) :
    Place.checkText ⟨"" :: "docs" :: List.replicate slashes "" ++ rest⟩ = .ok () ↔
      slashes + 6 + (Path.text ⟨rest⟩).utf8ByteSize < Place.maxPathSize := by
  have noZero : '\x00' ∉ (Path.text ⟨"" :: "docs" :: List.replicate slashes "" ++ rest⟩).toList := by
    rw [Path.mem_text_iff _ _ (by decide)]
    rintro ⟨s, hs, zero⟩
    rcases List.mem_append.mp hs with front | hs
    · rcases List.mem_cons.mp front with rfl | front
      · simp at zero
      rcases List.mem_cons.mp front with rfl | front
      · simp at zero
      · rw [List.eq_of_mem_replicate front] at zero
        simp at zero
    · rcases named s hs with rfl | entry
      · simp at zero
      · exact entry.noZero zero
  rw [Place.checkText_eq_ok_iff, size_text_far slashes rest filled]
  refine ⟨fun h => h.2.2, fun h => ⟨noZero, ?_, h⟩⟩
  intro empty
  have size := size_text_far slashes rest filled
  rw [empty, String.utf8ByteSize_empty] at size
  omega

theorem steps_far : Path.steps (far slashes).segments = ["docs"] := by
  have idle : ∀ s ∈ List.replicate slashes "" ++ [""], Path.isIdle s = true := by
    intro s hs
    rw [← List.replicate_succ'] at hs
    rw [List.eq_of_mem_replicate hs]
    rfl
  have split : (far slashes).segments = ["", "docs"] ++ (List.replicate slashes "" ++ [""]) := rfl
  rw [split, Path.steps_append, Path.steps_of_idle _ idle]
  decide

theorem walkTo?_far {t : FileTree} (proper : t.IsProper) (there : t.isDirectory ["docs"] = true)
    (segments : List String) (same : Path.steps segments = ["docs"]) :
    t.walkTo? [] segments = some ["docs"] := by
  have contained : t.contains ["docs"] = true :=
    (t.contains_iff _).mpr ⟨_, (t.isDirectory_iff _).mp there⟩
  have walked := t.walkTo?_names [] ["docs"] (proper.legal_of_contains _ contained) proper.closed
    contained
  exact t.walkTo?_of_steps [] _ segments (by rw [same]; exact walked) there

theorem walk_far {fs : FileSystem} (proper : fs.tree.IsProper)
    (there : fs.tree.isDirectory ["docs"] = true) (short : slashes + 6 < Place.maxPathSize) :
    Place.locate fs.tree true (far slashes) = .ok ["docs"] ∧
      (fs.walk (far slashes) = (fs.tree.under ["docs"]).map fun e => (far slashes).below e.1) ∧
      ∀ names, names ≠ [] → fs.tree.contains ("docs" :: names) = true →
        (fs.pathExists ((far slashes).below names) = true ↔
          slashes + 6 + (Path.text ⟨names⟩).utf8ByteSize < Place.maxPathSize) := by
  have reached := walkTo?_far proper there
  have located : Place.locate fs.tree true (far slashes) = .ok ["docs"] :=
    (Place.locate_eq_ok_iff fs.tree proper.noLinks true _ _).mpr
      ⟨(checkText_far slashes [""] (by simp) (by simp)).mpr short, reached _ (steps_far slashes)⟩
  refine ⟨located, by rw [FileSystem.walk, located], fun names filled contained => ?_⟩
  have named : ∀ s ∈ names, IsEntryName s := fun s hs =>
    (proper.legal_of_contains _ contained s (List.mem_cons_of_mem _ hs)).1
  rw [pathExists_below_iff proper (far slashes) ["docs"] names
    (reached _ (by rw [Path.steps_folder, steps_far])) filled contained,
    Path.below_eq _ _ filled named, folder_far,
    checkText_far slashes names filled fun s hs => .inr (named s hs)]

def based : Memory := Memory.empty.store "list" ⟨far slashes, []⟩

theorem target_based :
    target (.ofText "/") (based slashes) "list" = (far slashes, some ⟨far slashes, []⟩) := by
  simp [target, based, Memory.store, NameTable.find?_insert]

theorem merged_based : (raise "list").merged .rename none (based slashes) =
    .ok ⟨[("mode", "upper_case"), ("path", "list")]⟩ := by
  have merged : (raise "list").merged .rename none .empty =
      .ok ⟨[("mode", "upper_case"), ("path", "list")]⟩ := by
    decide +kernel
  exact merged

/-- A file in a directory whose name is shorter in upper case. -/
def shrinking : FileSystem where
  tree := .ofList [(["docs"], .directory), (["docs", "ſ"], .directory),
    (["docs", "ſ", "x"], .file .empty)]
  clock := ⟨2024, 1, 1, 0, 0, 0⟩

def shrunk : FileTree :=
  .ofList [(["docs"], .directory), (["docs", "S"], .directory), (["docs", "S", "x"], .file .empty)]

section
variable {slashes} (long : slashes + 10 = Place.maxPathSize)

include long

theorem plan_shrinking : plan shrinking (.ofText "/") (based slashes) (raise "list") none =
    .ok ⟨.upper, [(far slashes).below ["ſ"]]⟩ := by
  have proper : shrinking.tree.IsProper := by decide +kernel
  obtain ⟨located, walked, found⟩ := walk_far slashes proper (by decide +kernel) (by omega)
  have there : shrinking.pathExists ((far slashes).below ["ſ"]) = true := by
    have size : (Path.text ⟨["ſ"]⟩).utf8ByteSize = 2 := by decide +kernel
    rw [found ["ſ"] (by simp) (by decide +kernel), size]
    omega
  have lost : shrinking.pathExists ((far slashes).below ["ſ", "x"]) = false := by
    have size : (Path.text ⟨["ſ", "x"]⟩).utf8ByteSize = 4 := by decide +kernel
    rw [← Bool.not_eq_true, found ["ſ", "x"] (by simp) (by decide +kernel), size]
    omega
  have admitted : ∀ p, Filter.accepts {} shrinking p = shrinking.pathExists p := fun p => by
    rw [Filter.accepts_eq ⟨rfl, rfl⟩]
    exact Bool.and_true _
  have under : shrinking.tree.under ["docs"] = [(["ſ"], .directory), (["ſ", "x"], .file .empty)] := by
    decide +kernel
  refine (plan_eq_ok_iff (based slashes) (raise "list") none _).mpr ⟨_, "list", "upper_case", {},
    shrinking.walk (far slashes), merged_based slashes, by decide, by decide, by decide +kernel, ?_⟩
  rw [target_based]
  refine ⟨shrinking.pathExists_of_locate _ _ located, ?_, ?_, ?_⟩
  · rw [shrinking.isDirectory_of_locate _ _ located]
    decide +kernel
  · rw [candidates, if_pos (by decide +kernel)]
  · rw [walked, under, Filter.apply, List.map_cons, List.map_cons, List.filter_cons, admitted,
      there, List.filter_cons, admitted, lost]
    rfl

theorem run_shrinking : ∃ fs', fs'.tree = shrunk ∧
    Rename.run shrinking (.ofText "/") (based slashes) (raise "list") none = (fs', .ok ()) := by
  have proper : shrinking.tree.IsProper := by decide +kernel
  have named : IsEntryName "ſ" := by decide
  have path : (far slashes).below ["ſ"] =
      ⟨"" :: "docs" :: List.replicate slashes "" ++ ["ſ"]⟩ := by
    rw [Path.below_eq _ _ (by simp) (by simpa using named), folder_far]
  have idle : ∀ s ∈ List.replicate slashes "", Path.isIdle s = true := fun s hs => by
    rw [List.eq_of_mem_replicate hs]
    rfl
  have hnew : newPath? .upper ((far slashes).below ["ſ"]) = some ⟨["", "docs", "S"]⟩ := by
    have trimmed : Path.trimmedFront ("" :: "docs" :: List.replicate slashes "") = ["", "docs"] :=
      congrArg ("" :: ·) (Path.dropIdleRight_named [] _ "docs" (by decide) idle)
    rw [path, newPath?_concat _ _ _ named, trimmed]
    decide +kernel
  have size : (Path.text ⟨["ſ"]⟩).utf8ByteSize = 2 := by decide +kernel
  have asked := (checkText_far slashes ["ſ"] (by simp) (by simp [named])).mpr (by omega)
  have steps : Path.steps ("" :: "docs" :: List.replicate slashes "") = ["docs"] := by
    rw [← folder_far, Path.steps_folder, steps_far]
  have old : LastName.ofPath shrinking.tree ((far slashes).below ["ſ"]) =
      .ok (some ⟨["docs"], "ſ", false⟩) := by
    rw [path]
    exact LastName.ofPath_of_walkTo? _ proper.noLinks _ _ named ["docs"] asked
      (walkTo?_far proper (by decide +kernel) _ steps) (by decide +kernel) (by decide +kernel)
  have new : LastName.ofPath shrinking.tree ⟨["", "docs", "S"]⟩ =
      .ok (some ⟨["docs"], "S", false⟩) := by
    decide +kernel
  obtain ⟨fs', renamed, tree⟩ := shrinking.rename_of_free _ _ ["docs"] "ſ" "S" .directory old new
    (by decide +kernel) (by decide) (by decide +kernel)
  refine ⟨fs', ?_, ?_⟩
  · rw [tree]
    decide +kernel
  · rw [Rename.run, plan_shrinking long]
    simp only [renameEach, hnew, renamed]

theorem not_settlesAtOnce_shrinking :
    settlesAtOnce shrinking (.ofText "/") (based slashes) (raise "list") none = false := by
  obtain ⟨fs', tree, first⟩ := run_shrinking long
  have again : ∀ fs'' memory'', run fs' (.ofText "/") (based slashes) (raise "list") none =
      (fs'', .ok memory'') → fs''.tree ≠ fs'.tree := by
    intro fs'' memory'' second same
    rw [run_rename _ _ _ _ _ rfl] at second
    obtain ⟨_, renamed, -⟩ := exists_of_map_ok _ _ _ _ second
    have proper : fs'.tree.IsProper := by
      rw [tree]
      decide +kernel
    have found : ∀ entry ∈ fs'.walk (far slashes), fs'.pathExists entry = true := by
      obtain ⟨-, walked, found⟩ := walk_far slashes proper (by rw [tree]; decide +kernel) (by omega)
      have sizes : ∀ names ∈ shrunk.under ["docs"], names.1 ≠ [] ∧
          shrunk.contains ("docs" :: names.1) = true ∧
          (Path.text ⟨names.1⟩).utf8ByteSize ≤ 3 := by
        decide +kernel
      intro entry listed
      rw [walked, tree] at listed
      obtain ⟨e, under, rfl⟩ := List.mem_map.mp listed
      obtain ⟨filled, there, size⟩ := sizes e under
      rw [found e.1 filled (by rw [tree]; exact there)]
      omega
    have given : NameTable.find? ⟨[("mode", "upper_case"), ("path", "list")]⟩ "path" =
        some "list" := by
      decide
    have all : isRecursive ⟨[("mode", "upper_case"), ("path", "list")]⟩ = true := by decide +kernel
    obtain ⟨mode, f, moded, read, -, -, -, -, settled⟩ :=
      settled_of_run proper (merged_based slashes) (by decide) (by decide) given (.inl all)
        (fun entries chosen => by
          rw [target_based, candidates, if_pos all] at chosen
          exact Except.ok.inj chosen ▸ found) renamed
    obtain rfl : "upper_case" = mode := Option.some.inj moded
    obtain rfl : {} = f := by
      have none : Filter.ofParameters ⟨[("mode", "upper_case"), ("path", "list")]⟩ ownKeys =
          .ok {} := by
        decide +kernel
      exact Except.ok.inj (none.symm.trans read)
    have location : wayEnd [] (target (.ofText "/") (based slashes) "list").1.segments =
        ["docs"] := by
      rw [target_based, wayEnd_of_down _ (by rw [steps_far]; decide), steps_far]
    have changes : FileName.renamed .upper "x" ≠ "x" := by decide +kernel
    refine settled ["S", "x"] ⟨⟨by simp, by decide, fun single => ?_⟩,
      ⟨.file .empty, ?_, rfl⟩, rfl, changes⟩
    · cases all.symm.trans single
    rw [Search.location, Search.ofParameters, location, same, tree]
    decide +kernel
  rw [settlesAtOnce, run_rename _ _ _ _ _ rfl, first]
  simp only [Prod.map, Except.map, id]
  split
  · rfl
  · rename_i fs'' memory'' second
    exact decide_eq_false (again fs'' memory'' second)

end
end

theorem not_settlesAtOnce :
    upward.tree.IsProper ∧ settlesAtOnce upward (.ofText "/") .empty (raise "sub/..") none = false ∧
      shrinking.tree.IsProper ∧
      settlesAtOnce shrinking (.ofText "/") (based 4086) (raise "list") none = false :=
  ⟨by decide +kernel, by decide +kernel, by decide +kernel,
    not_settlesAtOnce_shrinking (by decide)⟩

end SimpleFiles.Execution
