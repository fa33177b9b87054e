import SimpleFiles.Proofs.Group.Accounting
import SimpleFiles.Proofs.Rename.Confinement

/-! Filters compose. An entry passes a filter exactly if it passes two others that share its options
between them, so that one may be applied after the other, in either order, and also later, by an
instruction that starts from what an earlier one has chosen. -/
namespace SimpleFiles

inductive Parted {α : Type} (nothing : α) : α → α → α → Prop
  | first (a : α) : Parted nothing a a nothing
  | second (a : α) : Parted nothing a nothing a

namespace Parted

section
variable {α β : Type} {nothing whole whole' first second : α}

theorem symm (h : Parted nothing whole first second) : Parted nothing whole second first := by
  cases h with
  | first => exact .second _
  | second => exact .first _

theorem map (f : α → β) (h : Parted nothing whole first second) :
    Parted (f nothing) (f whole) (f first) (f second) := by
  cases h with
  | first => exact .first _
  | second => exact .second _

theorem unique (h : Parted nothing whole first second) (h' : Parted nothing whole' first second) :
    whole = whole' := by
  cases h <;> cases h' <;> rfl

end

section
variable {α ε : Type}

theorem all_eq {whole first second : Option α} (h : Parted none whole first second) (p : α → Bool) :
    whole.all p = (first.all p && second.all p) := by
  cases h with
  | first => rw [Option.all_none, Bool.and_true]
  | second => rw [Option.all_none, Bool.true_and]

theorem ok_iff {whole first second : Except ε (Option α)}
    (h : Parted (.ok none) whole first second) (value : Option α) :
    whole = .ok value ↔
      ∃ left right, first = .ok left ∧ second = .ok right ∧ Parted none value left right := by
  constructor
  · rintro rfl
    cases h with
    | first => exact ⟨value, none, rfl, rfl, .first _⟩
    | second => exact ⟨none, value, rfl, rfl, .second _⟩
  · rintro ⟨left, right, rfl, rfl, parted⟩
    exact h.unique (parted.map Except.ok)

end
end Parted

def Filter.optionKeys : List String :=
  ["contains", "regex", "extension", "type", "modified_date", "size", "comparator"]

/-- Each option of the whole stands in the part that it is given to. Size and comparator make one
option. -/
structure Parameters.SplitBy (isFirst : String → Bool) (whole first second : Parameters) :
    Prop where
  paired : isFirst "size" = isFirst "comparator"
  first : ∀ key ∈ Filter.optionKeys,
    first.find? key = if isFirst key then whole.find? key else none
  second : ∀ key ∈ Filter.optionKeys,
    second.find? key = if isFirst key then none else whole.find? key

namespace Filter

/-- Two filters have the options of the whole between them, and none in common. -/
structure Splits (whole first second : Filter) : Prop where
  contains : Parted none whole.contains first.contains second.contains
  groups : Parted none whole.groups first.groups second.groups
  extension : Parted none whole.extension first.extension second.extension
  kind : Parted none whole.kind first.kind second.kind
  modified : Parted none whole.modified first.modified second.modified
  size : Parted none whole.size first.size second.size

def optionText (params : Parameters) (excluded : List String) (key : String) : Option String :=
  if key ∈ excluded then none else params.find? key

theorem ofParameters_eq_ok_iff (params : Parameters) (excluded : List String) (f : Filter) :
    ofParameters params excluded = .ok f ↔
      f.contains = optionText params excluded "contains" ∧
      (optionText params excluded "regex").mapM readPattern = .ok f.groups ∧
      f.extension = optionText params excluded "extension" ∧
      f.kind = (optionText params excluded "type").bind EntryKind.ofText? ∧
      (optionText params excluded "modified_date").mapM DateRange.read = .ok f.modified ∧
      SizeBound.read (optionText params excluded "size") (optionText params excluded "comparator") =
        .ok f.size := by
  constructor
  · intro h
    unfold ofParameters at h
    simp only [bind, Except.bind, pure, Except.pure] at h
    split at h
    · cases h
    rename_i groups readGroups
    split at h
    · cases h
    rename_i modified readModified
    split at h
    · cases h
    rename_i size readSize
    cases h
    exact ⟨rfl, readGroups, rfl, rfl, readModified, readSize⟩
  · rintro ⟨contains, groups, extension, kind, modified, size⟩
    unfold optionText at contains groups extension kind modified size
    unfold ofParameters
    simp only [groups, modified, size, bind, Except.bind, pure, Except.pure, ← contains,
      ← extension, ← kind]

section
variable {isFirst : String → Bool} {params params₁ params₂ : Parameters}
  (split : params.SplitBy isFirst params₁ params₂) (excluded : List String)

include split

theorem optionText_of_split (key : String) (isOption : key ∈ optionKeys) :
    optionText params₁ excluded key =
        (if isFirst key then optionText params excluded key else none) ∧
      optionText params₂ excluded key =
        if isFirst key then none else optionText params excluded key := by
  unfold optionText
  rw [split.first key isOption, split.second key isOption]
  by_cases out : key ∈ excluded
  · simp only [if_pos out, ite_self, and_self]
  · simp only [if_neg out, and_self]

theorem optionText_parted (key : String) (isOption : key ∈ optionKeys) :
    Parted none (optionText params excluded key) (optionText params₁ excluded key)
      (optionText params₂ excluded key) := by
  obtain ⟨left, right⟩ := optionText_of_split split excluded key isOption
  rw [left, right]
  cases isFirst key with
  | true => exact .first _
  | false => exact .second _

theorem readSize_parted :
    let read := fun params => SizeBound.read (optionText params excluded "size")
      (optionText params excluded "comparator")
    Parted (.ok none) (read params) (read params₁) (read params₂) := by
  intro read
  obtain ⟨left, right⟩ := optionText_of_split split excluded "size" (by decide)
  obtain ⟨left', right'⟩ := optionText_of_split split excluded "comparator" (by decide)
  simp only [read, left, right, left', right', ← split.paired]
  cases isFirst "size" with
  | true => exact .first _
  | false => exact .second _

theorem ofParameters_splits (whole : Filter) :
    ofParameters params excluded = .ok whole ↔
      ∃ first second, ofParameters params₁ excluded = .ok first ∧
        ofParameters params₂ excluded = .ok second ∧ whole.Splits first second := by
  have text := optionText_parted split excluded
  have contains := text "contains" (by decide)
  have groups := (text "regex" (by decide)).map fun text => text.mapM readPattern
  have extension := text "extension" (by decide)
  have kind := (text "type" (by decide)).map fun text => text.bind EntryKind.ofText?
  have modified := (text "modified_date" (by decide)).map fun text => text.mapM DateRange.read
  have size := readSize_parted split excluded
  simp only [ofParameters_eq_ok_iff]
  constructor
  · rintro ⟨ofContains, ofGroups, ofExtension, ofKind, ofModified, ofSize⟩
    obtain ⟨groups₁, groups₂, left, right, partedGroups⟩ := (groups.ok_iff _).mp ofGroups
    obtain ⟨modified₁, modified₂, left', right', partedModified⟩ :=
      (modified.ok_iff _).mp ofModified
    obtain ⟨size₁, size₂, left'', right'', partedSize⟩ := (size.ok_iff _).mp ofSize
    refine ⟨⟨_, groups₁, _, _, modified₁, size₁⟩, ⟨_, groups₂, _, _, modified₂, size₂⟩,
      ⟨rfl, left, rfl, rfl, left', left''⟩, ⟨rfl, right, rfl, rfl, right', right''⟩, ?_⟩
    exact ⟨ofContains ▸ contains, partedGroups, ofExtension ▸ extension, ofKind ▸ kind,
      partedModified, partedSize⟩
  · rintro ⟨first, second, ⟨ofContains₁, ofGroups₁, ofExtension₁, ofKind₁, ofModified₁, ofSize₁⟩,
      ⟨ofContains₂, ofGroups₂, ofExtension₂, ofKind₂, ofModified₂, ofSize₂⟩, splits⟩
    rw [← ofContains₁, ← ofContains₂] at contains
    rw [← ofExtension₁, ← ofExtension₂] at extension
    rw [← ofKind₁, ← ofKind₂] at kind
    exact ⟨splits.contains.unique contains,
      (groups.ok_iff _).mpr ⟨_, _, ofGroups₁, ofGroups₂, splits.groups⟩,
      splits.extension.unique extension, splits.kind.unique kind,
      (modified.ok_iff _).mpr ⟨_, _, ofModified₁, ofModified₂, splits.modified⟩,
      (size.ok_iff _).mpr ⟨_, _, ofSize₁, ofSize₂, splits.size⟩⟩

end

section
variable {f whole first second : Filter} {fs : FileSystem}

theorem Splits.symm (split : whole.Splits first second) : whole.Splits second first :=
  ⟨split.contains.symm, split.groups.symm, split.extension.symm, split.kind.symm,
    split.modified.symm, split.size.symm⟩

theorem admits_of_splits (split : whole.Splits first second) (name : String)
    (data : FileSystem.Metadata) :
    whole.admits name data = (first.admits name data && second.admits name data) := by
  unfold admits
  rw [split.contains.all_eq, split.groups.all_eq, split.extension.all_eq, split.kind.all_eq,
    split.modified.all_eq, split.size.all_eq]
  ac_rfl

theorem accepts_of_splits (split : whole.Splits first second) (fs : FileSystem) (p : Path) :
    whole.accepts fs p = (first.accepts fs p && second.accepts fs p) := by
  unfold accepts
  cases fs.metadata p with
  | error e => rfl
  | ok data => exact admits_of_splits split p.fileName data

theorem apply_apply_of_splits (split : whole.Splits first second) (fs : FileSystem)
    (entries : List Path) : whole.apply fs entries = second.apply fs (first.apply fs entries) := by
  unfold apply
  rw [List.filter_filter]
  refine List.filter_congr fun p _ => ?_
  rw [accepts_of_splits split, Bool.and_comm]

theorem pathExists_of_accepts {p : Path} (h : f.accepts fs p = true) : fs.pathExists p = true := by
  unfold accepts at h
  unfold FileSystem.pathExists
  split at h
  · rename_i found
    rw [found]
    rfl
  · cases h

end
end Filter

/-- Entries look as before, whether they have been put in other places or stay in theirs. -/
def FileSystem.Keeps (fs after : FileSystem) (place : Path → Path) (entries : List Path) : Prop :=
  ∀ entry ∈ entries,
    after.metadata (place entry) = fs.metadata entry ∧ (place entry).fileName = entry.fileName

theorem Filter.apply_of_keeps {fs after : FileSystem} {place : Path → Path} {entries : List Path}
    (kept : fs.Keeps after place entries) (f : Filter) :
    f.apply after (entries.map place) = (f.apply fs entries).map place := by
  unfold apply
  rw [List.filter_map]
  congr 1
  refine List.filter_congr fun entry listed => ?_
  obtain ⟨seen, named⟩ := kept entry listed
  rw [Function.comp, accepts, accepts, seen, named]

section
variable (memory : Memory) (declared : Instruction) (condition : Option Condition)
  (result : ResultSet) (f : Filter)

/-- The instruction groups what a filter admits of a stored result: of its own, or of that which its
target names. -/
def Group.StartsFrom : Prop :=
  ∃ params path mode, declared.merged .group condition memory = .ok params ∧
    Filter.ofParameters params ownKeys = .ok f ∧
    params.find? "path" = some path ∧ params.find? "mode" = some mode ∧
    (memory.results.find? declared.name = some result ∨
      memory.results.find? declared.name = none ∧ ∃ target,
        params.find? "group_target" = some target ∧ memory.results.find? target = some result)

/-- The instruction renames what a filter admits of the stored result that its path names, and does
not look at other levels. -/
def Rename.StartsFrom : Prop :=
  ∃ params path mode, declared.merged .rename condition memory = .ok params ∧
    Filter.ofParameters params ownKeys = .ok f ∧
    params.find? "path" = some path ∧ params.find? "mode" = some mode ∧
    isRecursive params = false ∧ memory.results.find? path = some result

variable {memory declared condition result f}

theorem Group.plan_of_startsFrom (h : StartsFrom memory declared condition result f)
    (fs : FileSystem) (dir : Path) : ∃ mode output, plan fs dir memory declared condition =
      .ok ⟨mode, f.apply fs result.entries, result.base, output⟩ := by
  obtain ⟨params, path, mode, merged, read, given, moded, stored⟩ := h
  have chosen : Chosen fs dir memory declared.name params result := by
    rcases stored with own | ⟨noOwn, target, named, stored⟩
    · exact .own own
    · exact .named noOwn named stored
  exact ⟨_, _, (plan_eq_ok_iff fs dir memory declared condition _).mpr
    ⟨params, f, result, path, mode, merged, read, chosen, given, moded, rfl⟩⟩

theorem Rename.plan_of_startsFrom (h : StartsFrom memory declared condition result f)
    (fs : FileSystem) (dir : Path) (directory : fs.isDirectory result.base = true) :
    ∃ mode, plan fs dir memory declared condition =
      .ok ⟨mode, deepestFirst (f.apply fs result.entries)⟩ := by
  obtain ⟨params, path, mode, merged, read, given, moded, flat, stored⟩ := h
  obtain ⟨l, located, -⟩ := fs.exists_locate_of_isDirectory _ directory
  have aimed : target dir memory path = (result.base, some result) := by
    rw [target, stored]
  refine ⟨_, (plan_eq_ok_iff memory declared condition _).mpr
    ⟨params, path, mode, f, result.entries, merged, given, moded, read, ?_, ?_, ?_, rfl⟩⟩
  · rw [aimed]
    exact fs.pathExists_of_locate _ l located
  · rw [aimed]
    exact directory
  · rw [flat, aimed]
    rfl

end

namespace Filter

variable {whole first second : Filter}

/-- Filters compose. Two filters that share the options of a whole between them choose from any
entries what the whole does, whichever of them comes first. What is chosen keeps its order and is
there as often as before, links are followed to see whether it exists, and an option more never
admits more. Parameters make such a filter exactly if those of its two parts do.

So an instruction that starts from a stored result, with the options of the second filter, chooses
what both filters together admit of the entries that the first one has chosen the result from, as
long as these look as they did then, wherever they are now. -/
theorem apply_of_splits (split : whole.Splits first second) (fs : FileSystem)
    (entries : List Path) :
    whole.apply fs entries = second.apply fs (first.apply fs entries) ∧
    whole.apply fs entries = first.apply fs (second.apply fs entries) ∧
    (whole.apply fs entries).Sublist (entries.filter fs.pathExists) ∧
    (∀ entry, (whole.apply fs entries).count entry =
      if whole.accepts fs entry then entries.count entry else 0) ∧
    (whole.apply fs entries).Sublist (first.apply fs entries) ∧
    (∀ isFirst params params₁ params₂ excluded, params.SplitBy isFirst params₁ params₂ →
      (ofParameters params excluded = .ok whole ↔
        ∃ first second, ofParameters params₁ excluded = .ok first ∧
          ofParameters params₂ excluded = .ok second ∧ whole.Splits first second)) ∧
    ∀ after place result memory declared condition dir,
      result.entries = (first.apply fs entries).map place →
      fs.Keeps after place (first.apply fs entries) →
      (Group.StartsFrom memory declared condition result second →
        ∃ mode output, Group.plan after dir memory declared condition =
          .ok ⟨mode, (whole.apply fs entries).map place, result.base, output⟩) ∧
      (Rename.StartsFrom memory declared condition result second →
        after.isDirectory result.base = true →
        ∃ mode, Rename.plan after dir memory declared condition =
          .ok ⟨mode, Rename.deepestFirst ((whole.apply fs entries).map place)⟩) := by
  have onward := apply_apply_of_splits split fs entries
  refine ⟨onward, apply_apply_of_splits split.symm fs entries, ?_, ?_, ?_,
    fun _ _ _ _ excluded given => ofParameters_splits given excluded whole, ?_⟩
  · exact List.monotone_filter_right entries fun _ => pathExists_of_accepts
  · intro entry
    split
    · rename_i accepted
      exact List.count_filter accepted
    · rename_i refused
      exact List.count_eq_zero.mpr fun listed => refused (List.mem_filter.mp listed).2
  · rw [onward]
    exact List.filter_sublist
  · intro after place result memory declared condition dir stored kept
    have again : second.apply after result.entries = (whole.apply fs entries).map place := by
      rw [stored, apply_of_keeps kept, onward]
    rw [← again]
    exact ⟨fun start => Group.plan_of_startsFrom start after dir,
      fun start => Rename.plan_of_startsFrom start after dir⟩

def records : FileSystem where
  tree := .ofList [(["docs"], .directory), (["docs", "memo"], .file ⟨#[2]⟩),
    (["docs", "note"], .file ⟨#[1]⟩), (["docs", "notes"], .directory)]
  clock := ⟨2024, 1, 1, 0, 0, 0⟩

def moveNotes : Instruction :=
  Group.gather "docs" "picked" "move" [⟨"contains", "note", .zero⟩]

def copyFiles : Instruction :=
  ⟨"files", .group, [⟨"group_target", "gather", .zero⟩, ⟨"path", "kept", .zero⟩,
    ⟨"mode", "copy", .zero⟩, ⟨"type", "file", .zero⟩], .zero⟩

theorem apply_of_splits_records :
    let named : Filter := { contains := some "note" }
    let filed : Filter := { kind := some .file }
    let both : Filter := { contains := some "note", kind := some .file }
    let entries := records.walk ⟨["", "docs"]⟩
    both.Splits named filed ∧
    both.apply records entries = filed.apply records (named.apply records entries) ∧
    both.apply records entries = named.apply records (filed.apply records entries) ∧
    ∃ after memory, Execution.run records (.ofText "/") .empty moveNotes none =
        (after, .ok memory) ∧
      ∃ mode output, Group.plan after (.ofText "/") memory copyFiles none =
        .ok ⟨mode, [⟨["", "picked", "note"]⟩], ⟨["", "picked"]⟩, output⟩ := by
  intro named filed both entries
  have split : both.Splits named filed :=
    ⟨.first _, .first none, .first none, .second _, .first none, .first none⟩
  let place := fun entry => Group.destination entry ⟨["", "docs"]⟩ ⟨["", "picked"]⟩
  let result : ResultSet := ⟨⟨["", "picked"]⟩, (named.apply records entries).map place⟩
  have completed : (Execution.run records (.ofText "/") .empty moveNotes none).2 =
      .ok (Memory.empty.store "gather" result) := by
    decide +kernel
  have kept : records.Keeps (Execution.run records (.ofText "/") .empty moveNotes none).1 place
      (named.apply records entries) := by
    unfold FileSystem.Keeps
    decide +kernel
  generalize Execution.run records (.ofText "/") .empty moveNotes none = ran at completed kept ⊢
  obtain ⟨after, outcome⟩ := ran
  obtain rfl : outcome = .ok _ := completed
  have start : Group.StartsFrom (Memory.empty.store "gather" result) copyFiles none result filed :=
    ⟨⟨[("type", "file"), ("mode", "copy"), ("path", "kept"), ("group_target", "gather")]⟩, "kept",
      "copy", by decide +kernel, by decide +kernel, rfl, rfl, .inr ⟨rfl, "gather", rfl, rfl⟩⟩
  obtain ⟨onward, back, -, -, -, -, chained⟩ := apply_of_splits split records entries
  obtain ⟨mode, output, planned⟩ :=
    (chained _ place result _ copyFiles none (.ofText "/") rfl kept).1 start
  have chosen : (both.apply records entries).map place = [⟨["", "picked", "note"]⟩] := by
    decide +kernel
  rw [chosen] at planned
  exact ⟨split, onward, back, after, _, rfl, mode, output, planned⟩

end Filter
end SimpleFiles
