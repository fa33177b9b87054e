import SimpleFiles.Proofs.FileSystem

/-! Filters that look at no time and no size: whether one admits an entry is told by its name and
by whether it is a directory, so it goes on being admitted as long as these stay. -/
namespace SimpleFiles.Filter

def admitsName (f : Filter) (name : String) : Bool :=
  f.contains.all (fun needle => occursIn needle.toList name.toList)
    && f.groups.all (fun groups => 0 < groups)
    && f.extension.all (FileName.extension name = ·)

/-- Neither the time at which an entry was modified nor its size matters. -/
structure LooksAtNames (f : Filter) : Prop where
  noDate : f.modified = none
  noSize : f.size = none

variable {f : Filter} {params : Parameters} {excluded : List String}

theorem admits_eq (names : f.LooksAtNames) (name : String) (data : FileSystem.Metadata) :
    f.admits name data = (f.admitsName name && f.kind.all (·.admits data.isDirectory)) := by
  simp [admits, admitsName, names.noDate, names.noSize]

theorem accepts_eq (names : f.LooksAtNames) (fs : FileSystem) (p : Path) :
    f.accepts fs p = (fs.pathExists p &&
      (f.admitsName p.fileName && f.kind.all (·.admits (fs.isDirectory p)))) := by
  unfold accepts
  cases there : fs.pathExists p with
  | false =>
    unfold FileSystem.pathExists at there
    cases found : fs.metadata p with
    | error e => rfl
    | ok data =>
      rw [found] at there
      cases there
  | true =>
    obtain ⟨l, located⟩ := fs.exists_locate_of_pathExists p there
    obtain ⟨data, found, kind⟩ := fs.exists_metadata_of_locate p l located
    rw [found, fs.isDirectory_of_locate p l located, ← kind, Bool.true_and]
    exact admits_eq names p.fileName data

theorem none_of_read (comparator : Option String) (size : Option SizeBound)
    (h : SizeBound.read none comparator = .ok size) : size = none := by
  cases comparator with
  | none => exact (Except.ok.inj h).symm
  | some text => cases h

theorem ofParameters_cases (h : ofParameters params excluded = .ok f)
    (own : "type" ∉ excluded ∧ "modified_date" ∉ excluded ∧ "size" ∉ excluded) :
    f.kind = (params.find? "type").bind EntryKind.ofText? ∧
      (params.find? "modified_date" = none → params.find? "size" = none → f.LooksAtNames) := by
  unfold ofParameters at h
  simp only [own.1, own.2.1, own.2.2, if_false, bind, Except.bind, pure, Except.pure] at h
  split at h
  · cases h
  split at h
  · cases h
  rename_i modified readDate
  split at h
  · cases h
  rename_i size readSize
  cases h
  refine ⟨rfl, fun noDate noSize => ⟨?_, ?_⟩⟩
  · rw [noDate] at readDate
    exact (Except.ok.inj readDate).symm
  · rw [noSize] at readSize
    exact none_of_read _ size readSize

end SimpleFiles.Filter
