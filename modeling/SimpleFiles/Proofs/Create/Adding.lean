import SimpleFiles.Proofs.Execution.Refusals
import SimpleFiles.Proofs.FileSystem.Making

/-! Creating only adds. Whatever the outcome, all that was there stays as it was; and when it
completes, each name in order is passed over where something is in its way, and leads to a new
entry otherwise. -/
namespace SimpleFiles.Create

open FileTree

def Kind.action : Kind → Action
  | .file => .createFile
  | .folder => .createFolder

section
variable (kind : Kind) (template : Option Path)

/-- Something is in the way of a new entry. A link that leads nowhere is in the way of an empty
file only. -/
def isTaken (fs : FileSystem) (target : Path) : Bool :=
  match kind, template with
  | .file, none => (Place.locate fs.tree false target).isOk
  | _, _ => fs.pathExists target

/-- What a new entry is: empty, a copy of the template, or a directory. -/
def newNode? (fs : FileSystem) : Option Node :=
  match kind, template with
  | .file, none => some (.file .empty)
  | .file, some template => (fs.content template).toOption.map .file
  | .folder, _ => some .directory

/-- The target leads to a new entry, and nothing else is new but directories above it. -/
structure Makes (fs : FileSystem) (target : Path) (fs' : FileSystem) : Prop where
  made : ∃ l n, newNode? kind template fs = some n ∧ fs.tree.get? l = none ∧
    Place.locate fs'.tree true target = .ok l ∧ fs'.tree.get? l = some n
  alone : fs.tree.Gains (fun l n => Place.locate fs'.tree true target = .ok l ∨
    kind = .folder ∧ n = .directory ∧ fs'.tree.LeadsAbove target l) fs'.tree

/-- What a run through targets makes of a file system, and which of them it records. -/
inductive Fills : FileSystem → List Path → List Path → FileSystem → Prop
  | done (fs : FileSystem) : Fills fs [] [] fs
  | passedOver {fs fs' : FileSystem} {target : Path} {rest entries : List Path}
    (taken : isTaken kind template fs target = true) (later : Fills fs rest entries fs') :
    Fills fs (target :: rest) entries fs'
  | created {fs fs₁ fs' : FileSystem} {target : Path} {rest entries : List Path}
    (free : isTaken kind template fs target = false) (made : Makes kind template fs target fs₁)
    (later : Fills fs₁ rest entries fs') : Fills fs (target :: rest) (target :: entries) fs'

/-- What may be new: the entries, and directories above the output or above new folders. -/
def IsNew (output : Path) (entries : List Path) (u : FileTree) (l : Location) (n : Node) : Prop :=
  (∃ entry ∈ entries, Place.locate u true entry = .ok l) ∨
    n = .directory ∧ (u.LeadsAbove output l ∨
      kind = .folder ∧ ∃ entry ∈ entries, u.LeadsAbove entry l)

end

/-- A target is named below the output; the name of a folder has no dot. -/
def IsTarget (kind : Kind) (output target : Path) : Prop :=
  ∃ name, target = output.join (.ofText name) ∧ (kind = .folder → '.' ∉ name.toList)

section
variable {kind : Kind} {template : Option Path} {fs fs' : FileSystem}

theorem not_located_of_not_pathExists (target : Path) (h : fs.pathExists target = false)
    (l : Location) : Place.locate fs.tree true target ≠ .ok l := by
  intro located
  rw [fs.pathExists_of_locate target l located] at h
  cases h

theorem makes_of_createAll (output target : Path) (closed : fs.tree.IsClosed)
    (filled : output.text ≠ "") (there : fs.isDirectory output = true)
    (named : IsTarget .folder output target) (lost : fs.pathExists target = false)
    (h : fs.createAll target = (fs', .ok ())) :
    Makes .folder template fs target fs' ∧ fs'.tree.IsClosed := by
  obtain ⟨name, rfl, noDot⟩ := named
  have plain : ∀ s ∈ (Path.ofText name).segments, '/' ∉ s.toList ∧ '.' ∉ s.toList := by
    intro s hs
    obtain ⟨noSlash, inside⟩ := Path.mem_of_mem_ofText name s hs
    exact ⟨noSlash, fun dot => noDot rfl (inside _ dot)⟩
  have spelled : (Path.ofText name).segments ≠ [] := by simp [Path.ofText, List.splitOn_ne_nil]
  have notEmpty : output.join (.ofText name) ≠ .empty := by
    intro empty
    exact Path.text_join_ne_empty output _ filled spelled (by rw [empty]; rfl)
  have start : ∃ front rest l, fs.tree.Descends (output.join (.ofText name)) front rest l := by
    rcases output.join_cases (.ofText name) with ⟨-, joined⟩ | ⟨-, joined⟩
    · exact ⟨[], _, [], by rw [joined]; rfl, .here _ _, rfl, plain⟩
    · unfold FileSystem.isDirectory at there
      split at there
      · rename_i l located
        have leads := ((Place.locate_iff_leads _ l).mp located).2
        refine ⟨output.folder, _, l, by rw [joined], ?_, there, plain⟩
        rcases output.segments_eq_folder with same | trailing
        · rwa [← same]
        · rw [trailing] at leads
          exact leads.of_append_idle (by decide)
      · cases there
  obtain ⟨front, rest, l, descends⟩ := start
  have gained := fs.createAll_gains (output.join (.ofText name))
  have closed' := FileSystem.isClosed_createAll (output.join (.ofText name)) closed
  obtain ⟨u, k, -, before, added⟩ := FileSystem.adds_of_createAll front rest l closed descends
    notEmpty (not_located_of_not_pathExists _ lost) h
  rw [h] at gained closed'
  refine ⟨⟨⟨k, .directory, rfl, before.missing k added.free, added.located, added.found⟩, ?_⟩,
    closed'⟩
  exact gained.mono fun m n made => .inr ⟨rfl, made⟩

theorem makes_of_adds (target : Path) (l : Location) (n : Node)
    (content : newNode? kind template fs = some n) (h : fs.tree.Adds target l n fs'.tree) :
    Makes kind template fs target fs' :=
  ⟨⟨l, n, content, h.free, h.located, h.found⟩, h.gains (.inl h.located)⟩

theorem createOne_cases (instruction : String) (output target : Path) (isNew : Bool)
    (closed : fs.tree.IsClosed) (filled : output.text ≠ "") (there : fs.isDirectory output = true)
    (named : IsTarget kind output target)
    (h : createOne fs instruction kind template target = (fs', .ok isNew)) :
    (isNew = false ∧ fs' = fs ∧ isTaken kind template fs target = true) ∨
      (isNew = true ∧ isTaken kind template fs target = false ∧
        Makes kind template fs target fs' ∧ fs'.tree.IsClosed) := by
  unfold createOne at h
  split at h
  · rename_i template
    split at h
    · rename_i taken
      cases h
      exact .inl ⟨rfl, rfl, taken⟩
    · rename_i free
      rw [Bool.not_eq_true] at free
      split at h
      · rename_i copied
        cases h
        obtain ⟨closed', l, content, read, added⟩ := FileSystem.adds_of_copyFile template target
          closed (not_located_of_not_pathExists target free) copied
        refine .inr ⟨rfl, free, makes_of_adds target l _ ?_ added, closed'⟩
        simp [newNode?, read, Except.toOption]
      · cases h
  · split at h
    · rename_i made
      cases h
      obtain ⟨l, added⟩ := FileSystem.adds_of_createFile made
      have free : isTaken .file none fs target = false := by
        rw [isTaken]
        cases located : Place.locate fs.tree false target with
        | ok m => exact absurd located (FileSystem.not_located_of_createFile made m)
        | error e => rfl
      exact .inr ⟨rfl, free, makes_of_adds target l _ rfl added,
        FileSystem.isClosed_createFile closed made⟩
    · rename_i taken
      cases h
      obtain ⟨l, located⟩ := FileSystem.exists_located_of_createFile closed taken
      exact .inl ⟨rfl, rfl, by rw [isTaken, located]; rfl⟩
    · cases h
  · split at h
    · rename_i taken
      cases h
      exact .inl ⟨rfl, rfl, taken⟩
    · rename_i free
      rw [Bool.not_eq_true] at free
      split at h
      · rename_i made
        cases h
        exact .inr ⟨rfl, free, makes_of_createAll output target closed filled there named free made⟩
      · cases h

variable (fs kind template) in
theorem createOne_files (instruction : String) (target : Path) :
    let fs' := (createOne fs instruction kind template target).1
    fs' = fs ∨ (fs.pathExists target = false ∧ ∃ source, fs.copyFile source target = .ok fs') ∨
      fs.createFile target = .ok fs' ∨ fs' = (fs.createAll target).1 := by
  unfold createOne
  split
  · split
    · exact .inl rfl
    · rename_i free
      split
      · rename_i copied
        exact .inr (.inl ⟨by simpa using free, _, copied⟩)
      · exact .inl rfl
  · split
    · rename_i made
      exact .inr (.inr (.inl made))
    · exact .inl rfl
    · exact .inl rfl
  · split
    · exact .inl rfl
    · refine .inr (.inr (.inr ?_))
      split
      · rename_i made
        rw [made]
      · rename_i failed
        rw [failed]

variable (kind template) in
theorem createOne_keeps (instruction : String) (target : Path) (closed : fs.tree.IsClosed) :
    let fs' := (createOne fs instruction kind template target).1
    fs.tree.Grows (fun _ => False) fs'.tree ∧ fs'.tree.IsClosed := by
  intro fs'
  rcases createOne_files kind template fs instruction target with
    same | ⟨free, source, copied⟩ | made | made
  · rw [show fs' = fs from same]
    exact ⟨.refl _ _, closed⟩
  · obtain ⟨closed', l, content, -, added⟩ := FileSystem.adds_of_copyFile source target
      closed (not_located_of_not_pathExists target free) copied
    have gained : fs.tree.Gains (fun _ _ => True) fs'.tree := added.gains trivial
    exact ⟨gained.grows _, closed'⟩
  · obtain ⟨l, added⟩ := FileSystem.adds_of_createFile made
    have gained : fs.tree.Gains (fun _ _ => True) fs'.tree := added.gains trivial
    exact ⟨gained.grows _, FileSystem.isClosed_createFile closed made⟩
  · rw [show fs' = (fs.createAll target).1 from made]
    exact ⟨FileSystem.createAll_grows (fun _ => False) fs target,
      FileSystem.isClosed_createAll target closed⟩

variable (kind template) in
theorem createEach_grows (instruction : String) (targets : List Path) (closed : fs.tree.IsClosed) :
    fs.tree.Grows (fun _ => False) (createEach instruction kind template fs targets).1.tree := by
  induction targets generalizing fs with
  | nil => exact .refl _ _
  | cons target rest ih =>
    obtain ⟨grown, closed₁⟩ := createOne_keeps kind template instruction target closed
    rw [createEach]
    split
    · rename_i failed
      rwa [failed] at grown
    · rename_i fs₁ isNew one
      rw [one] at grown closed₁
      have later := ih closed₁
      split
      · rename_i failed
        rw [failed] at later
        exact grown.trans later
      · rename_i made
        rw [made] at later
        exact grown.trans later

theorem createEach_fills (instruction : String) (output : Path) (targets entries : List Path)
    (closed : fs.tree.IsClosed) (filled : output.text ≠ "") (there : fs.isDirectory output = true)
    (named : ∀ target ∈ targets, IsTarget kind output target)
    (h : createEach instruction kind template fs targets = (fs', .ok entries)) :
    Fills kind template fs targets entries fs' := by
  induction targets generalizing fs entries with
  | nil =>
    cases h
    exact .done _
  | cons target rest ih =>
    rw [createEach] at h
    split at h
    · cases h
    rename_i fs₁ isNew one
    split at h
    · cases h
    rename_i created later
    obtain ⟨first, others⟩ := List.forall_mem_cons.mp named
    rcases createOne_cases instruction output target isNew closed filled there first one with
      ⟨rfl, rfl, taken⟩ | ⟨rfl, free, made, closed₁⟩
    · cases h
      exact .passedOver taken (ih _ closed there others later)
    · cases h
      have there₁ := FileSystem.isDirectory_of_grows (made.alone.grows fun _ => False) output there
      exact .created free made (ih _ closed₁ there₁ others later)

theorem Fills.gains {targets entries : List Path} (output : Path)
    (h : Fills kind template fs targets entries fs') :
    fs.tree.Gains (IsNew kind output entries fs'.tree) fs'.tree := by
  induction h with
  | done fs => exact .refl _ _
  | passedOver taken later ih => exact ih
  | @created fs fs₁ fs' target rest entries free made later ih =>
    have grown := ih.grows fun _ => False
    have first : fs.tree.Gains (IsNew kind output (target :: entries) fs'.tree) fs₁.tree := by
      refine made.alone.mono ?_
      rintro l n (located | ⟨folder, directory, q, ancestor, located⟩)
      · exact .inl ⟨target, List.mem_cons_self .., Place.locate_of_grows grown target l located⟩
      · exact .inr ⟨directory, .inr ⟨folder, target, List.mem_cons_self .., q, ancestor,
          Place.locate_of_grows grown q l located⟩⟩
    refine first.trans (ih.mono ?_)
    rintro l n (⟨entry, member, located⟩ | ⟨directory, above | ⟨folder, entry, member, above⟩⟩)
    · exact .inl ⟨entry, List.mem_cons_of_mem _ member, located⟩
    · exact .inr ⟨directory, .inl above⟩
    · exact .inr ⟨directory, .inr ⟨folder, entry, List.mem_cons_of_mem _ member, above⟩⟩

theorem plan_cases (dir : Path) (memory : Memory) (declared : Instruction)
    (condition : Option Condition) (p : Plan)
    (h : plan fs dir memory kind declared condition = .ok p) :
    p.kind = kind ∧ (kind = .folder → ∀ name ∈ p.names, '.' ∉ name.toList) ∧
      ∃ params, declared.merged .create condition memory = .ok params ∧
        names fs dir declared.name params = .ok p.names ∧ (p.output = dir ∨
          ∃ raw, params.find? "path" = some raw ∧ p.output = dir.join (.ofText raw)) := by
  unfold plan at h
  simp only [bind, Except.bind, pure, Except.pure] at h
  split at h
  · cases h
  rename_i params merged
  split at h
  · cases h
  rename_i names named
  have effective : declared.merged .create condition memory = .ok params :=
    eq_of_mapError_ok _ _ _ merged
  have placed : ((params.find? "path").map fun raw => dir.join (.ofText raw)).getD dir = dir ∨
      ∃ raw, params.find? "path" = some raw ∧
        ((params.find? "path").map fun raw => dir.join (.ofText raw)).getD dir =
          dir.join (.ofText raw) := by
    cases params.find? "path" with
    | none => exact .inl rfl
    | some raw => exact .inr ⟨raw, rfl, rfl⟩
  split at h
  · split at h
    · cases h
    · rename_i noDot
      cases h
      refine ⟨rfl, fun _ name member dot => ?_, params, effective, named, placed⟩
      have none := List.find?_eq_none.mp (Option.eq_none_iff_forall_ne_some.mpr noDot) name member
      simp [dot] at none
  · rename_i file
    cases h
    exact ⟨rfl, fun folder => absurd folder file, params, effective, named, placed⟩

theorem text_output_ne_empty {dir : Path} {memory : Memory} {declared : Instruction}
    {condition : Option Condition} {p : Plan} (placed : dir.text ≠ "")
    (h : plan fs dir memory kind declared condition = .ok p) : p.output.text ≠ "" := by
  obtain ⟨-, -, -, -, -, same | ⟨raw, -, joined⟩⟩ := plan_cases dir memory declared condition p h
  · rwa [same]
  · rw [joined]
    exact Path.text_join_ne_empty dir _ placed (by simp [Path.ofText, List.splitOn_ne_nil])

theorem perform_grows (instruction : String) (p : Plan) (closed : fs.tree.IsClosed) :
    fs.tree.Grows (fun _ => False) (perform fs instruction p).1.tree := by
  have grown := FileSystem.createAll_grows (fun _ => False) fs p.output
  have closed₁ := FileSystem.isClosed_createAll p.output closed
  unfold perform
  split
  · rename_i failed
    rwa [failed] at grown
  · rename_i fs₁ made
    rw [made] at grown closed₁
    have later := createEach_grows p.kind p.template instruction
      (p.names.map fun name => p.output.join (.ofText name)) closed₁
    split
    · rename_i failed
      rw [failed] at later
      exact grown.trans later
    · rename_i created
      rw [created] at later
      exact grown.trans later

theorem perform_fills (instruction : String) (p : Plan) (result : ResultSet)
    (closed : fs.tree.IsClosed) (filled : p.output.text ≠ "")
    (noDot : p.kind = .folder → ∀ name ∈ p.names, '.' ∉ name.toList)
    (h : perform fs instruction p = (fs', .ok result)) :
    result.base = p.output ∧ ∃ fs₁, fs₁.isDirectory p.output = true ∧
      fs.tree.Gains (fun l n => n = .directory ∧ fs₁.tree.LeadsAbove p.output l) fs₁.tree ∧
      Fills p.kind p.template fs₁ (p.names.map fun name => p.output.join (.ofText name))
        result.entries fs' := by
  have gained := fs.createAll_gains p.output
  have closed₁ := FileSystem.isClosed_createAll p.output closed
  unfold perform at h
  split at h
  · cases h
  rename_i fs₁ made
  rw [made] at gained closed₁
  have notEmpty : p.output ≠ .empty := by
    intro empty
    rw [empty] at filled
    exact filled rfl
  have there := FileSystem.isDirectory_of_createAll notEmpty made
  split at h
  · cases h
  rename_i entries created
  cases h
  refine ⟨rfl, fs₁, there, gained, ?_⟩
  refine createEach_fills instruction p.output _ _ closed₁ filled there ?_ created
  intro target member
  obtain ⟨name, hn, rfl⟩ := List.mem_map.mp member
  exact ⟨name, rfl, fun folder => noDot folder name hn⟩

theorem Fills.gains_from {fs₁ : FileSystem} {targets entries : List Path} {output : Path}
    (gained : fs.tree.Gains (fun l n => n = .directory ∧ fs₁.tree.LeadsAbove output l) fs₁.tree)
    (h : Fills kind template fs₁ targets entries fs') :
    fs.tree.Gains (IsNew kind output entries fs'.tree) fs'.tree := by
  have later := h.gains output
  refine Gains.trans (gained.mono ?_) later
  rintro l n ⟨directory, q, ancestor, located⟩
  exact .inr ⟨directory, .inl ⟨q, ancestor,
    Place.locate_of_grows (later.grows fun _ => False) q l located⟩⟩

end
end SimpleFiles.Create

namespace SimpleFiles.Execution

open FileTree Create

theorem act_create (kind : Kind) (fs : FileSystem) (dir : Path) (memory : Memory)
    (declared : Instruction) (condition : Option Condition)
    (action : declared.action = kind.action) :
    act fs dir memory declared condition =
      (Create.run fs dir memory kind declared condition).map id (·.map some) := by
  rw [act, action]
  cases kind <;> rfl

section
variable (kind : Kind) (fs : FileSystem) (dir : Path) (memory : Memory) (declared : Instruction)
  (condition : Option Condition)

/-- Creating only adds. Whatever the outcome, each entry stays as it was. On completion the result
is stored with the output as its base, its entries are the targets that nothing was in the way of
when their turn came, and nothing is new but these and missing directories above them. -/
theorem run_create_only_adds (closed : fs.tree.IsClosed) (placed : dir.text ≠ "")
    (action : declared.action = kind.action) :
    let fs' := (run fs dir memory declared condition).1
    (∀ l n, fs.tree.get? l = some n → fs'.tree.get? l = some n) ∧
      ∀ memory', (run fs dir memory declared condition).2 = .ok memory' →
        ∃ p entries fs₁, plan fs dir memory kind declared condition = .ok p ∧
          memory' = memory.store declared.name ⟨p.output, entries⟩ ∧
          fs₁.isDirectory p.output = true ∧
          fs.tree.Gains (fun l n => n = .directory ∧ fs₁.tree.LeadsAbove p.output l) fs₁.tree ∧
          Fills kind p.template fs₁ (p.names.map fun name => p.output.join (.ofText name)) entries
            fs' ∧
          fs.tree.Gains (IsNew kind p.output entries fs'.tree) fs'.tree := by
  rw [run, act_create kind fs dir memory declared condition action, Create.run]
  cases planned : plan fs dir memory kind declared condition with
  | error e => exact ⟨fun _ _ found => found, nofun⟩
  | ok p =>
    obtain ⟨ofKind, noDot, -⟩ := plan_cases dir memory declared condition p planned
    have filled := text_output_ne_empty placed planned
    have grown := perform_grows declared.name p closed
    simp only
    cases performed : perform fs declared.name p with
    | mk fs' outcome =>
      rw [performed] at grown
      refine ⟨fun l n found => (grown l n found).resolve_right fun changed => changed.1, ?_⟩
      intro memory' completed
      cases outcome with
      | error e => cases completed
      | ok result =>
        cases completed
        obtain ⟨base, fs₁, there, gained, fills⟩ := perform_fills declared.name p result closed
          filled (ofKind ▸ noDot) performed
        rw [ofKind] at fills
        refine ⟨p, result.entries, fs₁, rfl, ?_, there, gained, fills, fills.gains_from gained⟩
        rw [← base]
        rfl

end

def copies : Instruction :=
  ⟨"copies", .createFile, [⟨"namefile", "list", .zero⟩, ⟨"path", "docs", .zero⟩,
    ⟨"template_path", "form", .zero⟩], .zero⟩

/-- Of the names in the list one is taken, and another is that of a link that leads nowhere. -/
def linked : FileSystem where
  tree := .ofList [(["docs"], .directory), (["docs", "hook"], .link "fresh"),
    (["docs", "old"], .file ⟨#[1]⟩), (["form"], .file ⟨#[9]⟩),
    (["list"], .file "old\nhook\nnew\n".toUTF8)]
  clock := ⟨2024, 1, 1, 0, 0, 0⟩

theorem run_create_only_adds_linked :
    linked.tree.IsClosed ∧ (Path.ofText "/").text ≠ "" ∧ copies.action = Kind.file.action ∧
      (run linked (.ofText "/") .empty copies none).1.tree.get? ["docs", "old"] =
        some (.file ⟨#[1]⟩) ∧
      ∃ fs₁, Fills .file (some ⟨["", "form"]⟩) fs₁
        [⟨["", "docs", "old"]⟩, ⟨["", "docs", "hook"]⟩, ⟨["", "docs", "new"]⟩]
        [⟨["", "docs", "hook"]⟩, ⟨["", "docs", "new"]⟩]
        (run linked (.ofText "/") .empty copies none).1 := by
  have closed : linked.tree.IsClosed := by decide +kernel
  have placed : (Path.ofText "/").text ≠ "" := by decide
  have completed : (run linked (.ofText "/") .empty copies none).2 =
      .ok (Memory.empty.store "copies"
        ⟨⟨["", "docs"]⟩, [⟨["", "docs", "hook"]⟩, ⟨["", "docs", "new"]⟩]⟩) := by
    decide +kernel
  have planned : plan linked (.ofText "/") .empty .file copies none =
      .ok ⟨.file, ⟨["", "docs"]⟩, ["old", "hook", "new"], some ⟨["", "form"]⟩⟩ := by
    decide +kernel
  obtain ⟨kept, stored⟩ := run_create_only_adds .file linked (.ofText "/") .empty copies none closed
    placed rfl
  obtain ⟨p, entries, fs₁, planned', memory, -, -, fills, -⟩ := stored _ completed
  cases planned.symm.trans planned'
  have same : entries = [⟨["", "docs", "hook"]⟩, ⟨["", "docs", "new"]⟩] := by
    have found := congrArg (fun memory => memory.results.find? "copies") memory
    simp only [Memory.store, show copies.name = "copies" from rfl, NameTable.find?_insert, if_true,
      Option.some.injEq, ResultSet.mk.injEq] at found
    exact found.2.symm
  subst same
  exact ⟨closed, placed, rfl, kept _ _ (by decide +kernel), fs₁, fills⟩

end SimpleFiles.Execution
