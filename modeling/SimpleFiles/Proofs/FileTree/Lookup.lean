import SimpleFiles.Proofs.FileTree.Entries

/-! What is looked up in a tree, what names lead to below a location, and what an insertion
changes of it. -/
namespace SimpleFiles.FileTree

@[simp] theorem get?_nil (t : FileTree) : t.get? [] = some .directory := if_pos rfl

theorem contains_iff (t : FileTree) (l : Location) :
    t.contains l = true ↔ ∃ n, t.get? l = some n :=
  Option.isSome_iff_exists

theorem contains_eq_false_iff (t : FileTree) (l : Location) :
    t.contains l = false ↔ t.get? l = none := by
  rw [contains, Option.isSome_eq_false_iff, Option.isNone_iff_eq_none]

theorem isDirectory_iff (t : FileTree) (l : Location) :
    t.isDirectory l = true ↔ t.get? l = some .directory := by
  rw [isDirectory, Option.any_eq_true]
  constructor
  · rintro ⟨n, hn, directory⟩
    cases n with
    | directory => exact hn
    | file content => cases directory
    | link target => cases directory
  · exact fun hn => ⟨.directory, hn, rfl⟩

theorem isFile_iff (t : FileTree) (l : Location) :
    t.isFile l = true ↔ ∃ content, t.get? l = some (.file content) := by
  rw [isFile, Option.any_eq_true]
  constructor
  · rintro ⟨n, hn, file⟩
    cases n with
    | file content => exact ⟨content, hn⟩
    | directory => cases file
    | link target => cases file
  · exact fun ⟨content, hn⟩ => ⟨.file content, hn, rfl⟩

theorem get?_insert (t : FileTree) (l : Location) (hl : l ≠ []) (n : Node) (m : Location) :
    (t.insert l n).get? m = if m = l then some n else t.get? m := by
  by_cases root : m = []
  · subst root
    rw [if_neg hl.symm, get?_nil, get?_nil]
  · ext k
    simp only [get?_eq_some_iff _ m root, mem_insert_iff t l hl]
    split
    · rename_i here
      simp [here, eq_comm]
    · rename_i elsewhere
      simp [elsewhere, get?_eq_some_iff t m root]

theorem exists_mem_under_iff (t : FileTree) (l names : Location) :
    (∃ n, (names, n) ∈ t.under l) ↔ names ≠ [] ∧ t.contains (l ++ names) = true := by
  constructor
  · rintro ⟨n, under⟩
    obtain ⟨filled, listed⟩ := (t.mem_under_iff l names n).mp under
    have found := (t.get?_eq_some_iff _ (List.append_ne_nil_of_right_ne_nil _ filled) n).mpr listed
    exact ⟨filled, (t.contains_iff _).mpr ⟨n, found⟩⟩
  · rintro ⟨filled, there⟩
    obtain ⟨n, found⟩ := (t.contains_iff _).mp there
    exact ⟨n, (t.mem_under_iff l names n).mpr
      ⟨filled, (t.get?_eq_some_iff _ (List.append_ne_nil_of_right_ne_nil _ filled) n).mp found⟩⟩

theorem mem_children_iff (t : FileTree) (l : Location) (name : String) :
    name ∈ t.children l ↔ t.contains (l ++ [name]) = true := by
  have single : t.contains (l ++ [name]) = true ↔ ∃ n, ([name], n) ∈ t.under l := by
    rw [exists_mem_under_iff]
    simp
  rw [single, children, List.mem_filterMap]
  constructor
  · rintro ⟨⟨names, n⟩, under, one⟩
    refine ⟨n, ?_⟩
    split at one
    · rename_i same
      cases one
      cases same
      exact under
    · cases one
  · rintro ⟨n, under⟩
    exact ⟨_, under, rfl⟩

end SimpleFiles.FileTree
