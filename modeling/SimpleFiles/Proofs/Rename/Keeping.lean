import SimpleFiles.Proofs.FileSystem.Renaming
import SimpleFiles.Proofs.Rename.Recursive

/-! What a rename keeps, whatever becomes of it. Every file, directory and link is still
there, but for those that a new name was given over; and where the names in each directory
differ by more than case, that happens to none. -/
namespace SimpleFiles.Rename

open FileTree

def overwrittenEach (mode : CaseMode) : FileSystem → List Path → List Node
  | _, [] => []
  | fs, old :: rest =>
    match newPath? mode old with
    | none => overwrittenEach mode fs rest
    | some new =>
      match fs.rename old new with
      | .error _ => []
      | .ok fs' => (fs.occupant old new).toList ++ overwrittenEach mode fs' rest

/-- What stood under the new names that an instruction gives. -/
def overwritten (fs : FileSystem) (dir : Path) (memory : Memory) (declared : Instruction)
    (condition : Option Condition) : List Node :=
  match plan fs dir memory declared condition with
  | .error _ => []
  | .ok p => overwrittenEach p.mode fs p.entries

theorem renameEach_nodes (mode : CaseMode) (fs : FileSystem) (closed : fs.tree.IsClosed)
    (entries : List Path) :
    ((renameEach mode fs entries).1.tree.nodes ++ overwrittenEach mode fs entries).Perm
      fs.tree.nodes := by
  induction entries generalizing fs with
  | nil => simp [renameEach, overwrittenEach]
  | cons old rest ih =>
    rw [renameEach, overwrittenEach]
    cases newPath? mode old with
    | none => exact ih fs closed
    | some new =>
      simp only
      cases renamed : fs.rename old new with
      | error e => simp
      | ok fs' =>
        obtain ⟨closed', first⟩ := FileSystem.nodes_of_rename closed renamed
        have later := ih fs' closed'
        have swapped : (overwrittenEach mode fs' rest ++ (fs.occupant old new).toList).Perm
            ((fs.occupant old new).toList ++ overwrittenEach mode fs' rest) :=
          List.perm_append_comm
        refine (swapped.symm.append_left _).trans ?_
        rw [← List.append_assoc]
        exact (later.append_right _).trans first

/-- A tree in which the names of each directory differ by more than case, and can stand in
paths. -/
structure TellsApart (mode : CaseMode) (t : FileTree) : Prop where
  closed : t.IsClosed
  named : ∀ e ∈ t.entries, ∀ s ∈ e.1, IsEntryName s
  apart : ∀ parent a b, t.contains (parent ++ [a]) = true → t.contains (parent ++ [b]) = true →
    FileName.renamed mode a = FileName.renamed mode b → a = b

theorem tellsApart_iff (mode : CaseMode) (t : FileTree) :
    TellsApart mode t ↔ t.IsClosed ∧ (∀ e ∈ t.entries, ∀ s ∈ e.1, IsEntryName s) ∧
      (t.entries.map fun e => (e.1.dropLast, FileName.renamed mode (lastName e.1))).Nodup := by
  rw [List.nodup_map_iff_inj_on t.entries_nodup]
  constructor
  · intro h
    refine ⟨h.closed, h.named, ?_⟩
    rintro ⟨l, n⟩ hl ⟨m, k⟩ hm same
    obtain ⟨parent, a, rfl⟩ := (List.eq_nil_or_concat' l).resolve_left (h.closed _ hl).1
    obtain ⟨parent', b, rfl⟩ := (List.eq_nil_or_concat' m).resolve_left (h.closed _ hm).1
    simp only [List.dropLast_concat, lastName_concat, Prod.mk.injEq] at same
    obtain ⟨rfl, names⟩ := same
    obtain rfl := h.apart parent a b (t.contains_of_mem h.closed _ hl)
      (t.contains_of_mem h.closed _ hm) names
    rw [t.node_unique _ n k hl hm]
  · rintro ⟨closed, named, distinct⟩
    refine ⟨closed, named, ?_⟩
    intro parent a b ha hb same
    obtain ⟨n, hn⟩ := Option.isSome_iff_exists.mp ha
    obtain ⟨k, hk⟩ := Option.isSome_iff_exists.mp hb
    have equal := distinct _ ((t.get?_eq_some_iff _ (by simp) n).mp hn) _
      ((t.get?_eq_some_iff _ (by simp) k).mp hk) (by simpa using same)
    simpa using congrArg Prod.fst equal

instance (mode : CaseMode) (t : FileTree) : Decidable (TellsApart mode t) :=
  decidable_of_iff' _ (tellsApart_iff mode t)

theorem renamed_nameAt (mode : CaseMode) (parent : Location) (name : String) (m : Location) :
    FileName.renamed mode (nameAt lastName (parent ++ [name]) (FileName.renamed mode name) m) =
      FileName.renamed mode (lastName m) := by
  unfold nameAt
  split
  · rename_i here
    rw [here, lastName_concat, FileName.renamed_renamed]
  · rfl

theorem isEntryName_nameAt (mode : CaseMode) (parent : Location) (name : String) (m : Location)
    (filled : m ≠ []) (named : ∀ s ∈ m, IsEntryName s) :
    IsEntryName (nameAt lastName (parent ++ [name]) (FileName.renamed mode name) m) := by
  unfold nameAt
  split
  · rename_i here
    exact (named name (by simp [here])).renamed mode
  · obtain ⟨init, s, rfl⟩ := (List.eq_nil_or_concat' m).resolve_left filled
    rw [lastName_concat]
    exact named s (by simp)

section
variable {mode : CaseMode} {t : FileTree} (apart : TellsApart mode t) (parent : Location)
  (name : String) (there : t.contains (parent ++ [name]) = true)
  (changes : FileName.renamed mode name ≠ name)

include apart there changes in
theorem TellsApart.get?_new_name : t.get? (parent ++ [FileName.renamed mode name]) = none := by
  rw [← contains_eq_false_iff, Bool.eq_false_iff]
  intro taken
  exact changes (apart.apart parent _ name taken there (FileName.renamed_renamed mode name))

omit there in
include apart in
theorem TellsApart.separates :
    t.Separates (nameAt lastName (parent ++ [name]) (FileName.renamed mode name)) := by
  intro l a b ha hb same
  have first := renamed_nameAt mode parent name (l ++ [a])
  have second := renamed_nameAt mode parent name (l ++ [b])
  rw [lastName_concat] at first second
  exact apart.apart l a b ha hb (by rw [← first, ← second, same])

include apart there changes in
theorem TellsApart.move :
    TellsApart mode (t.move (parent ++ [name]) (parent ++ [FileName.renamed mode name])) := by
  have separates := apart.separates parent name
  have image := t.isImage_lastName.move apart.closed parent name (FileName.renamed mode name) there
    (relabel_lastName _) t.separates_lastName separates changes
  refine ⟨image.isClosed apart.closed, ?_, ?_⟩
  · intro e he s hs
    obtain ⟨l, hl, same⟩ := (image e).mp he
    rw [← same] at hs
    obtain ⟨m, filled, within, rfl⟩ := mem_relabel _ l s hs
    exact isEntryName_nameAt mode parent name m filled fun x hx =>
      apart.named _ hl x (within.subset hx)
  · intro l a b ha hb same
    obtain ⟨k, s, hk, above, rfl⟩ := image.exists_of_contains apart.closed l a ha
    obtain ⟨k', s', hk', above', rfl⟩ := image.exists_of_contains apart.closed l b hb
    have parents : k = k' :=
      t.relabel_injective apart.closed _ separates k k'
        (t.contains_above apart.closed _ k hk (List.prefix_append _ _))
        (t.contains_above apart.closed _ k' hk' (List.prefix_append _ _))
        (above.trans above'.symm)
    subst parents
    rw [renamed_nameAt, renamed_nameAt, lastName_concat, lastName_concat] at same
    rw [apart.apart k s s' hk hk' same]

end

theorem newPath?_named (mode : CaseMode) (front idle : List String) (name : String)
    (h : IsEntryName name) (allIdle : ∀ s ∈ idle, Path.isIdle s = true) (new : Path)
    (hnew : newPath? mode ⟨front ++ name :: idle⟩ = some new) :
    new = ⟨Path.trimmedFront front ++ [FileName.renamed mode name]⟩ := by
  rw [newPath?, Path.fileName?_named front idle name h allIdle] at hnew
  simp only [Option.bind_some,
    Path.withFileName_named front idle name _ h allIdle (h.renamed mode)] at hnew
  split at hnew
  · cases hnew
  · exact (Option.some.inj hnew).symm

section
variable {mode : CaseMode} {fs fs' : FileSystem} {old new : Path}
  (named : ∀ e ∈ fs.tree.entries, ∀ s ∈ e.1, IsEntryName s)
  (hnew : newPath? mode old = some new) (h : fs.rename old new = .ok fs')

include named hnew h in
theorem names_of_newPath? :
    ∃ source target n, LastName.ofPath fs.tree old = .ok (some source) ∧
      LastName.ofPath fs.tree new = .ok (some target) ∧
      fs.tree.get? source.location = some n ∧ IsEntryName source.name ∧
      target.parent = source.parent ∧ target.name = FileName.renamed mode source.name := by
  obtain ⟨source, target, n, hold, hnew', hn⟩ := FileSystem.names_of_rename h
  refine ⟨source, target, n, hold, hnew', hn, ?_⟩
  have entryName : IsEntryName source.name := by
    have listed := (fs.tree.get?_eq_some_iff source.location (by simp [LastName.location]) n).mp hn
    exact named _ listed _ (by simp [LastName.location])
  obtain ⟨front, slashes, split, allEmpty, leads, -⟩ := LastName.of_ofPath hold
  have allIdle : ∀ s ∈ slashes, Path.isIdle s = true := by
    intro s hs
    rw [allEmpty s hs]
    rfl
  have path : old = ⟨front ++ source.name :: slashes⟩ := by rw [← split]
  rw [path] at hnew
  have spelled := newPath?_named mode front slashes source.name entryName allIdle new hnew
  rw [spelled] at hnew'
  obtain ⟨last, leads'⟩ := LastName.of_ofPath_concat (entryName.renamed mode).filled hnew'
  obtain ⟨idle, trimmed, trimmedIdle⟩ := Path.trimmedFront_append front
  rw [trimmed] at leads
  exact ⟨entryName, leads'.unique (leads.of_append_idle trimmedIdle), last⟩

include hnew h in
theorem TellsApart.rename (apart : TellsApart mode fs.tree) :
    TellsApart mode fs'.tree ∧ fs.occupant old new = none := by
  obtain ⟨source, target, n, hold, hnew', hn, entryName, sameParent, newName⟩ :=
    names_of_newPath? apart.named hnew h
  unfold FileSystem.occupant
  simp only [hold, hnew']
  rcases FileSystem.moves_of_rename hold hnew' hn h with ⟨same, rfl⟩ | ⟨differ, -, moved⟩
  · rw [if_pos same]
    exact ⟨apart, rfl⟩
  · rw [if_neg differ]
    have location : target.location =
        source.parent ++ [FileName.renamed mode source.name] := by
      rw [LastName.location, sameParent, newName]
    have there := (fs.tree.contains_iff source.location).mpr ⟨n, hn⟩
    have changes : FileName.renamed mode source.name ≠ source.name := by
      intro kept
      rw [kept] at location
      exact differ location.symm
    rw [moved, location]
    exact ⟨apart.move source.parent source.name there changes,
      apart.get?_new_name source.parent source.name there changes⟩

end

theorem overwrittenEach_eq_nil (mode : CaseMode) (fs : FileSystem)
    (apart : TellsApart mode fs.tree) (entries : List Path) :
    overwrittenEach mode fs entries = [] := by
  induction entries generalizing fs with
  | nil => rfl
  | cons old rest ih =>
    rw [overwrittenEach]
    cases hnew : newPath? mode old with
    | none => exact ih fs apart
    | some new =>
      simp only
      cases renamed : fs.rename old new with
      | error e => rfl
      | ok fs' =>
        obtain ⟨apart', free⟩ := apart.rename hnew renamed
        simp [free, ih fs' apart']

/-- Whatever becomes of a rename, the tree holds the same files, directories and links as
before, but for those that a new name was given over. When the names of each directory differ
by more than case, there are none of these. -/
theorem run_keeps_nodes (fs : FileSystem) (dir : Path) (memory : Memory) (declared : Instruction)
    (condition : Option Condition) (closed : fs.tree.IsClosed) :
    ((run fs dir memory declared condition).1.tree.nodes ++
        overwritten fs dir memory declared condition).Perm fs.tree.nodes ∧
      ∀ p, plan fs dir memory declared condition = .ok p → TellsApart p.mode fs.tree →
        overwritten fs dir memory declared condition = [] := by
  unfold run overwritten
  cases plan fs dir memory declared condition with
  | error e => simp
  | ok p =>
    refine ⟨renameEach_nodes p.mode fs closed p.entries, ?_⟩
    rintro q same apart
    cases same
    exact overwrittenEach_eq_nil p.mode fs apart p.entries

def twins : FileSystem where
  tree := .ofList [(["docs"], .directory), (["docs", "A"], .file ⟨#[1]⟩),
    (["docs", "a"], .file ⟨#[2]⟩)]
  clock := ⟨2024, 1, 1, 0, 0, 0⟩

theorem run_keeps_nodes_twins :
    twins.tree.IsClosed ∧
      ((run twins (.ofText "/") .empty (raise "docs") none).1.tree.nodes ++
        [Node.file ⟨#[1]⟩]).Perm twins.tree.nodes ∧
      TellsApart .upper nested.tree ∧
      (run nested (.ofText "/") .empty (raise "docs") none).1.tree.nodes.Perm
        nested.tree.nodes := by
  have closed : twins.tree.IsClosed := by decide +kernel
  have lost : overwritten twins (.ofText "/") .empty (raise "docs") none = [.file ⟨#[1]⟩] := by
    decide +kernel
  have apart : TellsApart .upper nested.tree := by decide +kernel
  have planned : plan nested (.ofText "/") .empty (raise "docs") none =
      .ok ⟨.upper, [⟨["", "docs", "old", "note.txt"]⟩, ⟨["", "docs", "old"]⟩]⟩ := by
    decide +kernel
  obtain ⟨kept, -⟩ := run_keeps_nodes twins (.ofText "/") .empty (raise "docs") none closed
  obtain ⟨kept', none⟩ := run_keeps_nodes nested (.ofText "/") .empty (raise "docs") none
    apart.closed
  rw [lost] at kept
  rw [none _ planned apart, List.append_nil] at kept'
  exact ⟨closed, kept, apart, kept'⟩

end SimpleFiles.Rename
