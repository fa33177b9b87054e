import SimpleFiles.Proofs.Filter
import SimpleFiles.Proofs.Group.Accounting
import SimpleFiles.Proofs.Group.Recording
import SimpleFiles.Proofs.Path.Relative

/-! Grouping twice. The second time the destinations of the first are the entries to choose from
and its output is their base, so that each of them is its own destination and stays in its place.
Those are left out that are gone by then, or are no longer of the kind that the filter asks for. -/
namespace SimpleFiles.Group

open FileTree FileSystem

variable {fs fs' : FileSystem} {mode : GroupMode} {entry base output target : Path}
  {isDone : Bool}

/-- A path by which an entry can be placed below an output: it never goes up, and is more than the
directory that it starts from. -/
structure IsPlaceable (entry : Path) : Prop where
  plain : entry.IsPlain
  down : ".." ∉ entry.segments
  filled : entry.text ≠ ""
  notCurrent : entry.components ≠ [.current]

/-- Where an entry may go: by a way down from the output that ends in its own name. Only the root
stays where it is. -/
inductive Arrives (entry output : Path) : Path → Prop
  | below (trail : Path) (way : trail.IsTrail)
    (named : (Path.steps trail.segments).getLast? = (Path.steps entry.segments).getLast?) :
    Arrives entry output (output.join trail)
  | root (absolute : entry.isAbsolute = true) (noSteps : Path.steps entry.segments = []) :
    Arrives entry output entry

theorem IsPlaceable.isAbsolute (h : IsPlaceable entry)
    (noSteps : Path.steps entry.segments = []) : entry.isAbsolute = true := by
  obtain ⟨segments⟩ := entry
  have notEmpty := fun empty => h.filled ((Path.text_eq_empty_iff _).mpr empty)
  match segments with
  | [] => exact absurd (.inl rfl) notEmpty
  | [s] =>
    by_cases blank : s = ""
    · exact absurd (.inr (by rw [blank])) notEmpty
    · by_cases dot : s = "."
      · exact absurd (by rw [dot]; rfl) h.notCurrent
      · simp [Path.steps, Path.isIdle, blank, dot] at noSteps
  | s :: s' :: rest =>
    by_cases blank : s = ""
    · rw [blank]
      rfl
    · by_cases dot : s = "."
      · subst dot
        have current : Path.components ⟨"." :: s' :: rest⟩ = [.current] := by
          have after : Path.steps (s' :: rest) = [] := noSteps
          rw [Path.components, Path.filterMap_component?_eq]
          show [Path.Component.current] ++ (Path.steps (s' :: rest)).map _ = _
          rw [after]
          rfl
        exact absurd current h.notCurrent
      · simp [Path.steps, Path.isIdle, blank, dot] at noSteps

theorem arrives_join_shortText (h : IsPlaceable entry) (output : Path) :
    Arrives entry output (output.join (.ofText entry.shortText)) := by
  have name := Path.fileName?_eq entry
  rcases List.eq_nil_or_concat' (Path.steps entry.segments) with none | ⟨init, last, ends⟩
  · have absolute := h.isAbsolute none
    have short : entry.shortText = entry.text := by
      rw [Path.shortText, name, none]
      rfl
    obtain ⟨s, rest, split, -⟩ := entry.exists_of_isAbsolute absolute
    rw [short, Path.ofText_text entry h.plain (by simp [split])]
    rcases output.join_cases entry with ⟨-, joined⟩ | ⟨relative, -⟩
    · rw [joined]
      exact .root absolute none
    · rw [absolute] at relative
      cases relative
  · have step : last ∈ Path.steps entry.segments := by simp [ends]
    obtain ⟨inside, moves⟩ := List.mem_filter.mp step
    have notUp : last ≠ ".." := by
      rintro rfl
      exact h.down inside
    have noSlash := h.plain last inside
    have short : entry.shortText = last := by
      rw [Path.shortText, name, ends, List.getLast?_concat]
      simp [Option.filter, notUp]
    rw [short, Path.ofText_of_noSlash last noSlash]
    refine .below ⟨[last]⟩ (.name last noSlash (by simpa using moves) notUp) ?_
    rw [ends, List.getLast?_concat, Path.steps_cons_of_moving last [] (by simpa using moves)]
    rfl

theorem destination_arrives (h : IsPlaceable entry) (output : Path) (source : base.components ≠ []) :
    Arrives entry output (destination entry base output) := by
  unfold destination
  split
  · rename_i relative found
    rcases entry.isTrail_relativeTo? base relative h.plain h.down source found with
      rfl | ⟨trail, named⟩
    · exact arrives_join_shortText h output
    · rw [if_neg trail.text_ne_empty]
      exact .below relative trail named
  · exact arrives_join_shortText h output

namespace Arrives

theorem steps_join (trail : Path) (way : trail.IsTrail) (output : Path) :
    Path.steps (output.join trail).segments =
      Path.steps output.segments ++ Path.steps trail.segments := by
  rcases output.join_cases trail with ⟨absolute, -⟩ | ⟨-, joined⟩
  · rw [way.isInner.relative] at absolute
    cases absolute
  · rw [joined, Path.steps_append, Path.steps_folder]

theorem again (h : Arrives entry output target) (placeable : IsPlaceable entry)
    (rooted : output.isAbsolute = true) : destination target output output = target := by
  cases h with
  | below trail way named =>
    unfold destination
    rw [way.relativeTo?_join output rooted]
    simp only [if_neg way.text_ne_empty]
  | root absolute noSteps =>
    have source : output.components ≠ [] := by simp [Path.components_of_isAbsolute output rooted]
    have arrives := destination_arrives placeable output source
    generalize destination entry output output = goal at arrives
    cases arrives with
    | below trail way named =>
      rw [noSteps, List.getLast?_nil, List.getLast?_eq_none_iff] at named
      exact absurd named way.steps_ne_nil
    | root => rfl

theorem fileName (h : Arrives entry output target) : target.fileName = entry.fileName := by
  cases h with
  | below trail way named =>
    rw [Path.fileName, Path.fileName, Path.fileName?_eq, Path.fileName?_eq, steps_join trail way,
      List.getLast?_append_of_ne_nil _ way.steps_ne_nil, named]
  | root => rfl

end Arrives

section
variable (rooted : output.IsRooted) (down : ".." ∉ output.segments)

include rooted down in
theorem transferable_join (trail : Path) (way : trail.IsTrail) (source : entry.IsPlain) :
    Transferable entry (output.join trail) ∧
      LiesBelow (Path.steps output.segments) (wayEnd [] (output.join trail).segments) := by
  have extended := rooted.self.join trail way.segments_ne_nil way.plain way.isInner
  refine ⟨⟨source, extended.plain, way.endsInName.join output⟩, ?_⟩
  have steps := Arrives.steps_join trail way output
  have stays : ".." ∉ Path.steps (output.join trail).segments := by
    rw [steps]
    intro up
    rcases List.mem_append.mp up with up | up
    · exact down (List.mem_of_mem_filter up)
    · exact way.down (List.mem_of_mem_filter up)
  rw [wayEnd_of_down _ stays, steps]
  exact liesBelow_append _ _ way.steps_ne_nil

variable (proper : fs.tree.IsProper)
  (there : fs.tree.isDirectory (Path.steps output.segments) = true)

include rooted down proper there in
theorem output_stays_of_transfer (placeable : IsPlaceable entry) (arrives : Arrives entry output target)
    (h : transfer mode fs entry target = (fs', isDone)) :
    fs'.tree.IsProper ∧ fs'.tree.isDirectory (Path.steps output.segments) = true := by
  cases arrives with
  | root absolute noSteps =>
    have same : entry.same entry = true := beq_self_eq_true _
    unfold transfer at h
    rw [same] at h
    split at h
    · cases h
      exact ⟨proper, there⟩
    · cases h
      exact ⟨proper, there⟩
  | below trail way named =>
    obtain ⟨paths, below⟩ := transferable_join rooted down trail way placeable.plain
    refine ⟨(changes_transfer paths h).isProper proper, ?_⟩
    have proper₁ := (changes_makeParent fs paths.arrives).isProper proper
    have there₁ := (makeParent_grows (fun _ => False) fs (output.join trail)).isDirectory_of _ there
    rcases transfer_cases h with
      ⟨-, rfl | rfl⟩ | ⟨-, -, -, rfl⟩ | ⟨-, ⟨-, moved⟩ | ⟨-, copied⟩⟩
    · exact there
    · exact there₁
    · exact there
    · rcases moveEntry_cases moved with
        ⟨-, renamed⟩ | ⟨fs₁, copied, ⟨-, removed⟩ | ⟨-, rfl⟩⟩ | ⟨-, rfl⟩
      · exact isDirectory_of_rename there₁ proper₁ below renamed
      · exact isDirectory_of_removeFile
          ((copyFile_grows entry _ copied).2.isDirectory_of _ there₁) removed
      · exact (copyFile_grows entry _ copied).2.isDirectory_of _ there₁
      · exact there₁
    · have grown := copyEntry_grows (makeParent fs (output.join trail)).1 entry (output.join trail)
      rw [copied] at grown
      exact grown.isDirectory_of _ there₁

include rooted down proper there in
theorem output_stays_of_transferEach (mode : GroupMode) (entries : List Path)
    (source : base.components ≠ [])
    (placeable : ∀ entry ∈ entries, IsPlaceable entry) :
    let fs' := (transferEach mode base output fs entries).1
    fs'.tree.IsProper ∧ fs'.tree.isDirectory (Path.steps output.segments) = true := by
  induction entries generalizing fs with
  | nil => exact ⟨proper, there⟩
  | cons entry rest ih =>
    obtain ⟨first, others⟩ := List.forall_mem_cons.mp placeable
    rw [transferEach_cons]
    obtain ⟨proper₁, there₁⟩ := output_stays_of_transfer rooted down proper there first
      (destination_arrives first output source) rfl
    exact ih proper₁ there₁ others

end

theorem arrives_of_perform (proper : fs.tree.IsProper) (instruction : String) (p : Plan)
    (rooted : p.output.IsRooted) (down : ".." ∉ p.output.segments) (source : p.base.text ≠ "")
    (placeable : ∀ entry ∈ p.entries, IsPlaceable entry) {result : ResultSet}
    (h : perform fs instruction p = (fs', .ok result)) :
    result.base = p.output ∧ fs'.isDirectory p.output = true ∧
      ∀ target ∈ result.entries, ∃ entry ∈ p.entries, Arrives entry p.output target := by
  have filled : p.base.components ≠ [] := mt p.base.components_eq_nil_iff.mp source
  have notEmpty : p.output ≠ .empty := by
    intro empty
    have absolute := rooted.absolute
    rw [empty] at absolute
    cases absolute
  unfold perform at h
  split at h
  · cases h
  rename_i fs₀ made
  cases h
  have proper₀ := (changes_createAll fs rooted.plain).isProper proper
  rw [made] at proper₀
  obtain ⟨asked, there₀⟩ :=
    isDirectory_wayEnd proper₀ p.output (isDirectory_of_createAll notEmpty made)
  rw [wayEnd_of_down _ fun up => down (List.mem_of_mem_filter up)] at there₀
  obtain ⟨proper', there⟩ := output_stays_of_transferEach rooted down proper₀ there₀ p.mode
    p.entries filled placeable
  refine ⟨rfl, isDirectory_of_steps proper' p.output asked there, ?_⟩
  intro target listed
  obtain ⟨entry, member, rfl⟩ := exists_of_recorded p.entries fs₀ target listed
  exact ⟨entry, member, destination_arrives (placeable entry member) p.output filled⟩

theorem transferEach_of_placed (entries : List Path)
    (there : ∀ entry ∈ entries, fs.pathExists entry = true)
    (placed : ∀ entry ∈ entries, destination entry base output = entry) :
    transferEach mode base output fs entries = (fs, entries) := by
  induction entries with
  | nil => rfl
  | cons entry rest ih =>
    obtain ⟨first, others⟩ := List.forall_mem_cons.mp there
    obtain ⟨here, elsewhere⟩ := List.forall_mem_cons.mp placed
    have stays : transfer mode fs entry entry = (fs, true) := by
      have same : entry.same entry = true := beq_self_eq_true _
      rw [transfer, first, same]
      rfl
    rw [transferEach_cons, here, stays]
    simp only [ih others elsewhere, if_true]

/-- What the second of two runs keeps of the results of the first: what is still there, and of the
kind that the filter asks for. -/
def isKept (fs : FileSystem) (params : Parameters) (entry : Path) : Bool :=
  fs.pathExists entry &&
    ((params.find? "type").bind EntryKind.ofText?).all (·.admits (fs.isDirectory entry))

section
variable {dir : Path} {memory : Memory} {declared : Instruction} {condition : Option Condition}
  {params : Parameters} {f : Filter} {path how : String}

theorem run_of_arrived (rooted : dir.IsRooted)
    (merged : declared.merged .group condition memory = .ok params)
    (read : Filter.ofParameters params ownKeys = .ok f) (looks : f.LooksAtNames)
    (given : params.find? "path" = some path) (moving : params.find? "mode" = some how)
    {result : ResultSet} (stored : memory.results.find? declared.name = some result)
    (base : result.base = dir.join (.ofText path))
    (there : fs.isDirectory (dir.join (.ofText path)) = true)
    (arrived : ∀ target ∈ result.entries, ∃ entry, IsPlaceable entry ∧
      f.admitsName entry.fileName = true ∧ Arrives entry (dir.join (.ofText path)) target) :
    run fs dir memory declared condition =
      (fs, .ok ⟨dir.join (.ofText path), result.entries.filter (isKept fs params)⟩) := by
  have kind := (Filter.ofParameters_cases read (by decide)).1
  have again : ∀ target ∈ result.entries, f.accepts fs target = isKept fs params target ∧
      destination target (dir.join (.ofText path)) (dir.join (.ofText path)) = target := by
    intro target listed
    obtain ⟨entry, placeable, admitted, arrives⟩ := arrived target listed
    refine ⟨?_, arrives.again placeable (rooted.join_ofText path).absolute⟩
    rw [Filter.accepts_eq looks, arrives.fileName, admitted, kind, isKept, Bool.true_and]
  have planned : plan fs dir memory declared condition = .ok ⟨.ofText how,
      result.entries.filter (f.accepts fs), dir.join (.ofText path), dir.join (.ofText path)⟩ :=
    (plan_eq_ok_iff ..).mpr
      ⟨params, f, result, path, how, merged, read, .own stored, given, moving, by rw [base]⟩
  have kept : result.entries.filter (f.accepts fs) = result.entries.filter (isKept fs params) :=
    List.filter_congr fun target listed => (again target listed).1
  rw [run, planned, kept]
  simp only [perform, createAll_of_isDirectory fs _ there]
  rw [transferEach_of_placed]
  · intro target member
    exact (Bool.and_eq_true_iff.mp (List.mem_filter.mp member).2).1
  · intro target member
    exact (again target (List.mem_of_mem_filter member)).2

theorem run_again {memory' : Memory} {p : Plan} {result : ResultSet}
    (proper : fs.tree.IsProper) (rooted : dir.IsRooted)
    (merged : declared.merged .group condition memory = .ok params)
    (noDate : params.find? "modified_date" = none) (noSize : params.find? "size" = none)
    (planned : plan fs dir memory declared condition = .ok p) (down : ".." ∉ p.output.segments)
    (source : p.base.text ≠ "")
    (placeable : ∀ entry ∈ p.entries,
      entry.IsPlain ∧ ".." ∉ entry.segments ∧ entry.components ≠ [.current])
    (h : run fs dir memory declared condition = (fs', .ok result))
    (sameEnv : memory'.env = memory.env)
    (stored : memory'.results.find? declared.name = some result) :
    result.base = p.output ∧ run fs' dir memory' declared condition =
      (fs', .ok ⟨p.output, result.entries.filter (isKept fs' params)⟩) := by
  simp only [run, planned] at h
  obtain ⟨params', f, choice, path, how, merged', read, -, given, moving, rfl⟩ :=
    (plan_eq_ok_iff fs dir memory declared condition p).mp planned
  obtain rfl := Except.ok.inj (merged.symm.trans merged')
  have looks := (Filter.ofParameters_cases read (by decide)).2 noDate noSize
  have admitted : ∀ entry ∈ choice.entries.filter (f.accepts fs),
      IsPlaceable entry ∧ f.admitsName entry.fileName = true := by
    intro entry member
    obtain ⟨plain, stays, notCurrent⟩ := placeable entry member
    have accepted := (List.mem_filter.mp member).2
    have asked := f.checkText_of_accepts fs entry accepted
    rw [Filter.accepts_eq looks, Bool.and_eq_true, Bool.and_eq_true] at accepted
    exact ⟨⟨plain, stays, ((Place.checkText_eq_ok_iff entry).mp asked).2.1, notCurrent⟩,
      accepted.2.1⟩
  obtain ⟨base, there, arrived⟩ := arrives_of_perform proper declared.name _
    (rooted.join_ofText path) down source (fun entry member => (admitted entry member).1) h
  refine ⟨base, run_of_arrived rooted ?_ read looks given moving stored base there ?_⟩
  · rw [← merged, Instruction.merged, sameEnv, Instruction.merged]
  · intro target listed
    obtain ⟨entry, member, arrives⟩ := arrived target listed
    exact ⟨entry, (admitted entry member).1, (admitted entry member).2, arrives⟩

end

end SimpleFiles.Group

namespace SimpleFiles.Execution

open SimpleFiles.Group

section
variable (fs : FileSystem) (dir : Path) (memory : Memory) (declared : Instruction)
  (condition : Option Condition)

/-- Executing an instruction again leaves the file system as it is, and keeps the base path and
those of the entries that are there. -/
def keepsOnRepeat : Bool :=
  match run fs dir memory declared condition with
  | (fs', .ok memory') =>
    (memory'.results.find? declared.name).any fun result =>
      run fs' dir memory' declared condition =
        (fs', .ok (memory'.store declared.name
          ⟨result.base, result.entries.filter fs'.pathExists⟩))
  | (_, .error _) => true

/-- Grouping again, with a filter that looks at no time and no size and paths that never go up,
leaves the file system as it is and keeps the base path, and of the entries those that are still
there and of the kind that the filter asks for. -/
theorem run_group_again (proper : fs.tree.IsProper) (rooted : dir.IsRooted)
    (action : declared.action = .group) (params : Parameters)
    (merged : declared.merged .group condition memory = .ok params)
    (noDate : params.find? "modified_date" = none) (noSize : params.find? "size" = none)
    (p : Plan) (planned : plan fs dir memory declared condition = .ok p)
    (down : ".." ∉ p.output.segments) (source : p.base.text ≠ "")
    (placeable : ∀ entry ∈ p.entries,
      entry.IsPlain ∧ ".." ∉ entry.segments ∧ entry.components ≠ [.current])
    (fs' : FileSystem) (memory' : Memory)
    (h : run fs dir memory declared condition = (fs', .ok memory')) :
    ∃ entries, memory' = memory.store declared.name ⟨p.output, entries⟩ ∧
      run fs' dir memory' declared condition =
        (fs', .ok (memory'.store declared.name ⟨p.output, entries.filter fun entry =>
          fs'.pathExists entry && ((params.find? "type").bind EntryKind.ofText?).all
            (·.admits (fs'.isDirectory entry))⟩)) := by
  have acts := fun fs memory => act_group fs dir memory declared condition action
  obtain ⟨⟨base, entries⟩, grouped, rfl⟩ := (run_storing_iff _ _ _ _ _ _ _ (acts fs memory) _).mp h
  obtain ⟨rfl, again⟩ := run_again proper rooted merged noDate noSize planned down source placeable
    grouped (rfl : (memory.store declared.name ⟨base, entries⟩).env = memory.env)
    (by rw [Memory.store, NameTable.find?_insert, if_pos rfl])
  exact ⟨entries, rfl, (run_storing_iff _ _ _ _ _ _ _ (acts fs' _) _).mpr ⟨_, again, rfl⟩⟩

end

def crossed : FileSystem where
  tree := .ofList [(["b"], .directory), (["b", "n"], .directory), (["b", "n", "z"], .file ⟨#[3]⟩),
    (["b", "x"], .directory), (["b", "x", "n"], .file ⟨#[2]⟩), (["else"], .directory),
    (["else", "n"], .file ⟨#[1]⟩)]
  clock := ⟨2024, 1, 1, 0, 0, 0⟩

/-- A result that lists the files, one of them from elsewhere. -/
def listed : Memory :=
  Memory.empty.store "list" ⟨⟨["", "b"]⟩,
    [⟨["", "else", "n"]⟩, ⟨["", "b", "x", "n"]⟩, ⟨["", "b", "n", "z"]⟩]⟩

def moveFiles : Instruction := gather "list" "b/x" "move" [⟨"type", "file", .zero⟩]

theorem run_group_again_crossed : ∃ fs' memory',
    crossed.tree.IsProper ∧ (Path.ofText "/").IsRooted ∧ moveFiles.action = .group ∧
      memory' = listed.store "gather" ⟨⟨["", "b", "x"]⟩,
        [⟨["", "b", "x", "n"]⟩, ⟨["", "b", "x", "x", "n"]⟩, ⟨["", "b", "x", "n", "z"]⟩]⟩ ∧
      run crossed (.ofText "/") listed moveFiles none = (fs', .ok memory') ∧
      run fs' (.ofText "/") memory' moveFiles none = (fs', .ok (memory'.store "gather"
        ⟨⟨["", "b", "x"]⟩, [⟨["", "b", "x", "x", "n"]⟩, ⟨["", "b", "x", "n", "z"]⟩]⟩)) := by
  have proper : crossed.tree.IsProper := by decide +kernel
  have rooted : (Path.ofText "/").IsRooted := ⟨by decide, Path.isPlain_ofText "/"⟩
  have merged : moveFiles.merged .group none listed =
      .ok ⟨[("type", "file"), ("mode", "move"), ("path", "b/x"), ("group_target", "list")]⟩ := by
    decide +kernel
  have planned : plan crossed (.ofText "/") listed moveFiles none = .ok ⟨.move,
      [⟨["", "else", "n"]⟩, ⟨["", "b", "x", "n"]⟩, ⟨["", "b", "n", "z"]⟩], ⟨["", "b"]⟩,
      ⟨["", "b", "x"]⟩⟩ := by
    decide +kernel
  have completed : (run crossed (.ofText "/") listed moveFiles none).2 =
      .ok (listed.store "gather" ⟨⟨["", "b", "x"]⟩,
        [⟨["", "b", "x", "n"]⟩, ⟨["", "b", "x", "x", "n"]⟩, ⟨["", "b", "x", "n", "z"]⟩]⟩) := by
    decide +kernel
  have kept : [⟨["", "b", "x", "n"]⟩, ⟨["", "b", "x", "x", "n"]⟩, ⟨["", "b", "x", "n", "z"]⟩].filter
      (isKept (run crossed (.ofText "/") listed moveFiles none).1
        ⟨[("type", "file"), ("mode", "move"), ("path", "b/x"), ("group_target", "list")]⟩) =
      [⟨["", "b", "x", "x", "n"]⟩, ⟨["", "b", "x", "n", "z"]⟩] := by
    decide +kernel
  generalize first : run crossed (.ofText "/") listed moveFiles none = ran at completed kept
  obtain ⟨fs', outcome⟩ := ran
  obtain rfl : outcome = .ok _ := completed
  obtain ⟨entries, stored, again⟩ := run_group_again crossed (.ofText "/") listed moveFiles none
    proper rooted rfl _ merged (by decide) (by decide) _ planned (by decide) (by decide)
    (by simp only [Path.IsPlain]; decide) fs' _ first
  have same : entries =
      [⟨["", "b", "x", "n"]⟩, ⟨["", "b", "x", "x", "n"]⟩, ⟨["", "b", "x", "n", "z"]⟩] := by
    have found := congrArg (fun memory => memory.results.find? "gather") stored
    simp only [Memory.store, show moveFiles.name = "gather" from rfl, NameTable.find?_insert,
      if_true, Option.some.injEq, ResultSet.mk.injEq] at found
    exact found.2.symm
  subst same
  refine ⟨fs', _, proper, rooted, rfl, rfl, rfl, again.trans ?_⟩
  exact congrArg (fun entries => (fs', Except.ok (Memory.store _ "gather"
    ⟨⟨["", "b", "x"]⟩, entries⟩))) kept

def beside : FileSystem where
  tree := .ofList [(["a"], .file ⟨#[1]⟩), (["in"], .directory)]
  clock := ⟨2024, 1, 1, 0, 0, 0⟩

theorem not_keepsOnRepeat :
    crossed.tree.IsProper ∧ keepsOnRepeat crossed (.ofText "/") listed moveFiles none = false ∧
      beside.tree.IsProper ∧
      keepsOnRepeat beside (.ofText "/") (Memory.empty.store "list" ⟨⟨["", "in"]⟩, [⟨["."]⟩]⟩)
        (gather "list" "out" "copy" []) none = false ∧
      keepsOnRepeat beside (.ofText "/") (Memory.empty.store "list" ⟨⟨[""]⟩, [⟨["", "a"]⟩]⟩)
        (gather "list" "out" "move" []) none = false := by
  decide +kernel

end SimpleFiles.Execution
