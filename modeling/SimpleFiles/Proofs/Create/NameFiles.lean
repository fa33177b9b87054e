import SimpleFiles.Proofs.Execution.Refusals
import SimpleFiles.Proofs.Path.Joining
import SimpleFiles.Proofs.Text.Blank

/-! Name files. A text lists names one per line, with blanks around them and blank lines between
them; a creation uses the names that its name file lists, in their order, and no others. -/
namespace SimpleFiles.Create

structure IsListable (name : String) : Prop where
  filled : name ≠ ""
  oneLine : '\n' ∉ name.toList
  trimmed : Text.IsTrimmed name

def IsSpacing (cs : List Char) : Prop := ∀ c ∈ cs, Text.isBlank c ∧ c ≠ '\n'

/-- A line holds nothing but blanks, or a name with blanks around it. -/
inductive LineHolds : List String → List Char → Prop
  | blank {cs : List Char} (spacing : IsSpacing cs) : LineHolds [] cs
  | name {name : String} {before after : List Char} (left : IsSpacing before)
      (right : IsSpacing after) : LineHolds [name] (before ++ name.toList ++ after)

/-- A text lists names in order, line by line. The last line may have no end. -/
inductive Lists : List String → List Char → Prop
  | last {names : List String} {line : List Char} (holds : LineHolds names line) : Lists names line
  | line {first names : List String} {line ending rest : List Char}
      (holds : LineHolds first line) (ends : ending ∈ [['\n'], ['\r', '\n']])
      (others : Lists names rest) : Lists (first ++ names) (line ++ ending ++ rest)

def lineNames (line : List Char) : List String :=
  if Text.trimmed line = [] then [] else [.ofList (Text.trimmed line)]

theorem namesOfText_eq (text : String) :
    namesOfText text = (text.toList.splitOn '\n').flatMap lineNames := by
  rw [namesOfText, Text.lines]
  induction text.toList.splitOn '\n' with
  | nil => rfl
  | cons line rest ih =>
    rw [List.flatMap_cons, ← ih, lineNames]
    by_cases blank : Text.trimmed line = []
    · simp [Text.trim, blank]
    · have kept : String.ofList (Text.trimmed line) ≠ "" := by simpa using blank
      simp [Text.trim, blank]

theorem lineNames_of_lineHolds {names : List String} {line : List Char}
    (h : LineHolds names line) (listable : ∀ name ∈ names, IsListable name) :
    lineNames line = names := by
  cases h with
  | blank spacing =>
    rw [lineNames, if_pos ((Text.trimmed_eq_nil_iff line).mpr fun c hc => (spacing c hc).1)]
  | @name name before after left right =>
    have good := listable name (.head [])
    have filled : name.toList ≠ [] := by simpa using good.filled
    rw [lineNames, Text.trimmed_padded good.trimmed (fun c hc => (left c hc).1)
      (fun c hc => (right c hc).1), if_neg filled, String.ofList_toList]

theorem LineHolds.concat_return {names : List String} {line : List Char} (h : LineHolds names line) :
    LineHolds names (line ++ ['\r']) := by
  have extended {cs : List Char} (spacing : IsSpacing cs) : IsSpacing (cs ++ ['\r']) := by
    intro c hc
    rcases List.mem_append.mp hc with hc | hc
    · exact spacing c hc
    · rw [List.mem_singleton.mp hc]
      decide
  cases h with
  | blank spacing => exact .blank (extended spacing)
  | name left right =>
    rw [List.append_assoc]
    exact .name left (extended right)

theorem LineHolds.oneLine {names : List String} {line : List Char} (h : LineHolds names line)
    (listable : ∀ name ∈ names, IsListable name) : '\n' ∉ line := by
  cases h with
  | blank spacing => exact fun feed => (spacing _ feed).2 rfl
  | @name name before after left right =>
    have good := listable name (.head [])
    simp only [List.mem_append, not_or]
    exact ⟨⟨fun feed => (left _ feed).2 rfl, good.oneLine⟩, fun feed => (right _ feed).2 rfl⟩

theorem flatMap_lineNames_of_lists {names : List String} {cs : List Char} (h : Lists names cs)
    (listable : ∀ name ∈ names, IsListable name) :
    (cs.splitOn '\n').flatMap lineNames = names := by
  induction h with
  | last holds =>
    rw [List.splitOn_eq_singleton (holds.oneLine listable), List.flatMap_singleton,
      lineNames_of_lineHolds holds listable]
  | @line first names line ending rest holds ends others ih =>
    obtain ⟨ofFirst, ofRest⟩ := List.forall_mem_append.mp listable
    obtain ⟨whole, holds, spelled⟩ : ∃ whole, LineHolds first whole ∧
        line ++ ending ++ rest = whole ++ '\n' :: rest := by
      simp only [List.mem_cons, List.not_mem_nil, or_false] at ends
      rcases ends with rfl | rfl
      · exact ⟨line, holds, by simp⟩
      · exact ⟨line ++ ['\r'], holds.concat_return, by simp⟩
    rw [spelled, List.splitOn_append_cons_self_of_not_mem (holds.oneLine ofFirst),
      List.flatMap_cons, ih ofRest, lineNames_of_lineHolds holds ofFirst]

theorem lineHolds_lineNames {line : List Char} (oneLine : '\n' ∉ line) :
    LineHolds (lineNames line) line ∧ ∀ name ∈ lineNames line, IsListable name := by
  obtain ⟨before, after, hbefore, hafter, whole⟩ := Text.exists_padding line
  have inLine {part : List Char} (hpart : ∀ c ∈ part, Text.isBlank c) (hline : part ⊆ line) :
      IsSpacing part :=
    fun c hc => ⟨hpart c hc, fun feed => oneLine (feed ▸ hline hc)⟩
  have left : IsSpacing before := inLine hbefore (by rw [whole]; simp)
  have right : IsSpacing after := inLine hafter (by rw [whole]; simp)
  unfold lineNames
  split
  · next gone =>
    exact ⟨.blank (inLine ((Text.trimmed_eq_nil_iff line).mp gone) (List.Subset.refl line)), nofun⟩
  · next filled =>
    have trimmed := Text.isTrimmed_trim (.ofList line)
    rw [Text.trim, String.toList_ofList] at trimmed
    have holds : LineHolds [.ofList (Text.trimmed line)]
        (before ++ (String.ofList (Text.trimmed line)).toList ++ after) := .name left right
    rw [String.toList_ofList, ← whole] at holds
    refine ⟨holds, fun name hname => ?_⟩
    rw [List.mem_singleton.mp hname]
    refine ⟨by simpa using filled, fun feed => oneLine ?_, trimmed⟩
    rw [String.toList_ofList] at feed
    rw [whole]
    simp [feed]

theorem lists_of_lines {lines : List (List Char)} (filled : lines ≠ [])
    (oneLine : ∀ line ∈ lines, '\n' ∉ line) :
    Lists (lines.flatMap lineNames) (['\n'].intercalate lines) ∧
      ∀ name ∈ lines.flatMap lineNames, IsListable name := by
  induction lines with
  | nil => exact absurd rfl filled
  | cons line rest ih =>
    obtain ⟨here, there⟩ := List.forall_mem_cons.mp oneLine
    obtain ⟨holds, listable⟩ := lineHolds_lineNames here
    by_cases last : rest = []
    · subst last
      rw [List.flatMap_singleton, List.intercalate_singleton]
      exact ⟨.last holds, listable⟩
    · obtain ⟨others, listable'⟩ := ih last there
      rw [List.flatMap_cons, List.intercalate_cons_of_ne_nil last]
      exact ⟨.line holds (.head _) others, List.forall_mem_append.mpr ⟨listable, listable'⟩⟩

theorem namesOfText_eq_iff (text : String) (names : List String) :
    namesOfText text = names ↔ (∀ name ∈ names, IsListable name) ∧ Lists names text.toList := by
  rw [namesOfText_eq]
  constructor
  · rintro rfl
    obtain ⟨lists, listable⟩ := lists_of_lines (List.splitOn_ne_nil '\n' text.toList)
      fun line hline => (Path.mem_of_mem_splitOn '\n' _ line hline).1
    rw [List.intercalate_splitOn] at lists
    exact ⟨listable, lists⟩
  · exact fun ⟨listable, lists⟩ => flatMap_lineNames_of_lists lists listable

theorem namesOfText_eq_nil_iff (text : String) :
    namesOfText text = [] ↔ ∀ line ∈ Text.lines text, Text.isBlankText line := by
  have blank (line : String) : Text.trim line = "" ↔ Text.isBlankText line := by
    rw [Text.trim, ← String.toList_inj, String.toList_ofList, String.toList_empty,
      Text.trimmed_eq_nil_iff, Text.isBlankText, List.all_eq_true]
  simp only [namesOfText, List.filter_eq_nil_iff, List.forall_mem_map, ne_eq, decide_not,
    Bool.not_eq_true', decide_eq_false_iff_not, not_not, blank]

/-! What a creation makes of names. -/

/-- The directory in which a creation works; that of the interpreter unless a path is given. -/
def outputOf (dir : Path) (params : Parameters) : Path :=
  ((params.find? "path").map fun raw => dir.join (.ofText raw)).getD dir

def templateOf (dir : Path) (kind : Kind) (params : Parameters) : Option Path :=
  (if kind = .file then params.find? "template_path" else none).map fun raw => dir.join (.ofText raw)

section
variable {fs : FileSystem} {dir : Path} {memory : Memory} {kind : Kind} {declared : Instruction}
  {condition : Option Condition} {params : Parameters} {file text : String}

theorem plan_of_names {list : List String}
    (merged : declared.merged .create condition memory = .ok params)
    (named : names fs dir declared.name params = .ok list) :
    plan fs dir memory kind declared condition =
      match (if kind = .folder then list.find? ('.' ∈ ·.toList) else none) with
      | some name => .error (.refused declared.name (.dotInFolderName name))
      | none => .ok ⟨kind, outputOf dir params, list, templateOf dir kind params⟩ := by
  unfold plan
  rw [← Instruction.merged, merged]
  simp only [Except.mapError, bind, Except.bind, named]
  by_cases folder : kind = .folder
  · rw [if_pos folder, if_pos folder]
    cases list.find? ('.' ∈ ·.toList) with
    | some name => rfl
    | none => rfl
  · rw [if_neg folder, if_neg folder]
    rfl

theorem run_of_names_error {e : ExecutionError}
    (merged : declared.merged .create condition memory = .ok params)
    (failed : names fs dir declared.name params = .error e) :
    run fs dir memory kind declared condition = (fs, .error e) := by
  unfold run plan
  rw [← Instruction.merged, merged]
  simp only [Except.mapError, bind, Except.bind, failed]

theorem names_of_read (given : params.find? "namefile" = some file)
    (read : fs.readText (dir.join (.ofText file)) = .ok text) :
    names fs dir declared.name params =
      if namesOfText text = [] then
        .error (.refused declared.name (.noNames (dir.join (.ofText file))))
      else .ok (namesOfText text) := by
  simp only [names, given, namesOfFile, read]

theorem run_ne_noNames {list : List String} {file : Path}
    (merged : declared.merged .create condition memory = .ok params)
    (named : names fs dir declared.name params = .ok list) :
    (run fs dir memory kind declared condition).2 ≠
      .error (.refused declared.name (.noNames file)) := by
  rw [run, plan_of_names merged named]
  split
  · next planned =>
    split at planned
    · cases planned
      simp
    · cases planned
  · next p _ =>
    intro refused
    obtain ⟨attempt, cause, call⟩ := perform_error fs _ declared.name p _ (Prod.ext rfl refused)
    cases call

theorem names_eq_ok_iff_lists (given : params.find? "namefile" = some file)
    (read : fs.readText (dir.join (.ofText file)) = .ok text) (list : List String) :
    names fs dir declared.name params = .ok list ↔
      list ≠ [] ∧ (∀ name ∈ list, IsListable name) ∧ Lists list text.toList := by
  rw [names_of_read given read, ← namesOfText_eq_iff]
  split
  · next none =>
    simp only [none, reduceCtorEq, false_iff]
    exact fun ⟨filled, same⟩ => filled same.symm
  · next some =>
    rw [Except.ok.injEq, iff_and_self]
    exact fun same => same ▸ some

theorem run_of_no_names (merged : declared.merged .create condition memory = .ok params)
    (given : params.find? "namefile" = some file)
    (read : fs.readText (dir.join (.ofText file)) = .ok text) (none : namesOfText text = []) :
    run fs dir memory kind declared condition =
      (fs, .error (.refused declared.name (.noNames (dir.join (.ofText file))))) := by
  refine run_of_names_error merged ?_
  rw [names_of_read given read, if_pos none]

theorem run_eq_noNames_iff (merged : declared.merged .create condition memory = .ok params)
    (given : params.find? "namefile" = some file)
    (read : fs.readText (dir.join (.ofText file)) = .ok text) :
    (run fs dir memory kind declared condition).2 =
      .error (.refused declared.name (.noNames (dir.join (.ofText file)))) ↔
        namesOfText text = [] := by
  constructor
  · intro refused
    by_contra some
    have named : names fs dir declared.name params = .ok (namesOfText text) := by
      rw [names_of_read given read, if_neg some]
    exact run_ne_noNames merged named refused
  · intro none
    rw [run_of_no_names merged given read none]

/-- A creation with a name file uses the names that the file lists, whatever the count. It is
refused for want of names if and only if every line is blank, and then nothing is touched. -/
theorem run_from_nameFile
    (merged : declared.merged .create condition memory = .ok params)
    (given : params.find? "namefile" = some file)
    (read : fs.readText (dir.join (.ofText file)) = .ok text) :
    let done := run fs dir memory kind declared condition
    let noNames := .refused declared.name (.noNames (dir.join (.ofText file)))
    (∀ list, names fs dir declared.name params = .ok list ↔
      list ≠ [] ∧ (∀ name ∈ list, IsListable name) ∧ Lists list text.toList) ∧
    (∀ list ≠ [], (∀ name ∈ list, IsListable name) → Lists list text.toList →
      ((kind = .folder → ∀ name ∈ list, '.' ∉ name.toList) →
        done = perform fs declared.name
          ⟨kind, outputOf dir params, list, templateOf dir kind params⟩) ∧
      ∀ name, kind = .folder → list.find? ('.' ∈ ·.toList) = some name →
        done = (fs, .error (.refused declared.name (.dotInFolderName name)))) ∧
    (done.2 = .error noNames ↔ ∀ line ∈ Text.lines text, Text.isBlankText line) ∧
    (done.2 = .error noNames → done.1 = fs) := by
  intro done noNames
  have refused_iff : done.2 = .error noNames ↔ namesOfText text = [] :=
    run_eq_noNames_iff merged given read
  refine ⟨names_eq_ok_iff_lists given read, ?_,
    refused_iff.trans (namesOfText_eq_nil_iff text), ?_⟩
  · intro list filled listable lists
    have named : names fs dir declared.name params = .ok list :=
      (names_eq_ok_iff_lists given read list).mpr ⟨filled, listable, lists⟩
    have planned : plan fs dir memory kind declared condition = _ := plan_of_names merged named
    constructor
    · intro allowed
      have undotted : (if kind = .folder then list.find? ('.' ∈ ·.toList) else none) = none := by
        split
        · next folder => simpa using allowed folder
        · rfl
      rw [undotted] at planned
      simp only [done, run, planned]
    · intro name folder dotted
      rw [if_pos folder, dotted] at planned
      simp only [done, run, planned]
  · intro h
    exact congrArg Prod.fst (run_of_no_names merged given read (refused_iff.mp h))

end

def listing : Instruction :=
  ⟨"listing", .createFile, [⟨"namefile", "list", .zero⟩, ⟨"count", "0", .zero⟩], .zero⟩

def scatteredText : String := " one\r\n\t\r\n\ntwo words\n\u00a0one\u2003"

def scattered : FileSystem where
  tree := .ofList [(["list"], .file scatteredText.toUTF8)]
  clock := ⟨2024, 1, 1, 0, 0, 0⟩

theorem run_from_nameFile_scattered :
    ∃ params, listing.merged .create none .empty = .ok params ∧
      params.find? "namefile" = some "list" ∧
      scattered.readText ((Path.ofText "/").join (.ofText "list")) = .ok scatteredText ∧
      (∀ name ∈ ["one", "two words", "one"], IsListable name) ∧
      Lists ["one", "two words", "one"] scatteredText.toList ∧
      run scattered (.ofText "/") .empty .file listing none =
        perform scattered "listing"
          ⟨.file, outputOf (.ofText "/") params, ["one", "two words", "one"],
            templateOf (.ofText "/") .file params⟩ := by
  obtain ⟨params, merged⟩ : ∃ params, listing.merged .create none .empty = .ok params := ⟨_, rfl⟩
  have given : params.find? "namefile" = some "list" := by
    cases merged
    decide +kernel
  have read : scattered.readText ((Path.ofText "/").join (.ofText "list")) = .ok scatteredText := by
    decide +kernel
  obtain ⟨listable, lists⟩ :=
    (namesOfText_eq_iff scatteredText ["one", "two words", "one"]).mp (by decide +kernel)
  obtain ⟨-, used, -, -⟩ := @run_from_nameFile _ _ _ .file _ _ _ _ _ merged given read
  exact ⟨params, merged, given, read, listable, lists, (used _ (by simp) listable lists).1 nofun⟩

end SimpleFiles.Create
