import SimpleFiles.Proofs.FileSystem
import SimpleFiles.Proofs.Path
import SimpleFiles.Proofs.Rename.Names
import SimpleFiles.Proofs.Rename.Order

/-! Renaming entry after entry. Between two renames the tree is the first one with some of
its entries renamed; the path of the next entry still leads to it, unless an entry on the
way to the directory was among them. -/
namespace SimpleFiles.Rename

open FileTree

theorem newPath?_concat (mode : CaseMode) (front : List String) (name : String)
    (h : IsEntryName name) :
    newPath? mode ⟨front ++ [name]⟩ =
      if FileName.renamed mode name = name then none
      else some ⟨Path.trimmedFront front ++ [FileName.renamed mode name]⟩ := by
  have hnew := h.renamed mode
  rw [newPath?, Path.fileName?_named front [] name h (by simp)]
  simp only [Option.bind_some, Path.withFileName_named front [] name _ h (by simp) hnew,
    Path.same_renamed front name _ h hnew, decide_eq_true_eq]

theorem checkText_renamed (mode : CaseMode) (front : List String) (name : String)
    (h : IsEntryName name) (old : Place.checkText ⟨front ++ [name]⟩ = .ok ()) :
    Place.checkText ⟨Path.trimmedFront front ++ [FileName.renamed mode name]⟩ = .ok () ↔
      (Path.text ⟨Path.trimmedFront front ++ [FileName.renamed mode name]⟩).utf8ByteSize <
        Place.maxPathSize := by
  have hnew := h.renamed mode
  obtain ⟨noZero, -, -⟩ := (Place.checkText_eq_ok_iff _).mp old
  rw [Place.checkText_eq_ok_iff]
  constructor
  · exact fun ok => ok.2.2
  · intro short
    refine ⟨?_, ?_, short⟩
    · intro zero
      apply noZero
      rw [Path.mem_text_iff _ _ (by decide)] at zero ⊢
      obtain ⟨s, hs, inside⟩ := zero
      obtain ⟨idle, split, -⟩ := Path.trimmedFront_append front
      rcases List.mem_append.mp hs with inFront | last
      · refine ⟨s, ?_, inside⟩
        show s ∈ front ++ [name]
        rw [split]
        simp [inFront]
      · rw [List.mem_singleton.mp last] at inside
        exact absurd inside hnew.noZero
    · exact Path.text_concat_ne_empty _ _ hnew

/-- Entries below a directory that are renamed one after another. -/
structure Batch (t : FileTree) where
  mode : CaseMode
  /-- The segments that lead to the directory. -/
  folder : List String
  location : Location
  entries : List Location
  proper : t.IsProper
  filled : folder ≠ []
  reached : t.walkTo? [] folder = some location
  below : ∀ l ∈ entries, ∃ names, names ≠ [] ∧ l = location ++ names
  there : ∀ l ∈ entries, t.contains l = true
  readable : ∀ l ∈ entries, Place.checkText ⟨folder ++ l.drop location.length⟩ = .ok ()
  short : ∀ l ∈ entries, (FileName.renamed mode (lastName l)).utf8ByteSize ≤ Place.maxNameSize
  separates : t.Separates (namesAfter mode entries)

namespace Batch

variable {t : FileTree} (b : Batch t)

def path (l : Location) : Path := ⟨b.folder ++ l.drop b.location.length⟩

def Fits (l : Location) : Prop :=
  ∀ new, newPath? b.mode (b.path l) = some new → new.text.utf8ByteSize < Place.maxPathSize

/-- The segments that lead to the directory pass the entry. -/
def PassesThrough (l : Location) : Prop := l ∈ stations [] b.folder

/-- The way to the directory is still as it was. -/
def Clear (done : List Location) : Prop := ∀ m ∈ done, Changes b.mode m → ¬ b.PassesThrough m

theorem exists_names (l : Location) (hl : l ∈ b.entries) :
    ∃ init name, l = b.location ++ init ++ [name] ∧ b.path l = ⟨b.folder ++ init ++ [name]⟩ ∧
      ∀ s ∈ init ++ [name], IsEntryName s ∧ s.utf8ByteSize ≤ Place.maxNameSize := by
  obtain ⟨names, hne, rfl⟩ := b.below l hl
  obtain ⟨init, name, rfl⟩ := (List.eq_nil_or_concat' names).resolve_left hne
  refine ⟨init, name, (List.append_assoc ..).symm, ?_, ?_⟩
  · rw [path, List.drop_left, List.append_assoc]
  · obtain ⟨n, hn⟩ := Option.isSome_iff_exists.mp (b.there _ hl)
    have listed := (t.get?_eq_some_iff _ (by simp) n).mp hn
    intro s hs
    exact b.proper.named _ listed s (List.mem_append_right _ hs)

theorem depth_path (l : Location) (hl : l ∈ b.entries) :
    (b.path l).depth + b.location.length = (Path.ancestors b.folder).length + l.length := by
  obtain ⟨init, name, rfl, hpath, named⟩ := b.exists_names l hl
  rw [hpath, List.append_assoc, Path.depth_below b.folder _ (by simp) fun s hs => (named s hs).1]
  simp only [List.length_append]
  omega

theorem segments_lt_iff (l m : Location) (hl : l ∈ b.entries) (hm : m ∈ b.entries) :
    (b.path l).segments < (b.path m).segments ↔ l < m := by
  obtain ⟨names, -, rfl⟩ := b.below l hl
  obtain ⟨names', -, rfl⟩ := b.below m hm
  rw [path, path, List.drop_left, List.drop_left, append_lt_append_iff b.location]
  exact append_lt_append_iff b.folder names names'

theorem earlier_iff (l m : Location) (hl : l ∈ b.entries) (hm : m ∈ b.entries) :
    Earlier (b.path l) (b.path m) ↔ Before l m := by
  have depth := b.depth_path l hl
  have depth' := b.depth_path m hm
  unfold Earlier Before
  rw [b.segments_lt_iff l m hl hm]
  constructor
  · rintro (deeper | ⟨level, less⟩)
    · exact .inl (by omega)
    · exact .inr ⟨by omega, less⟩
  · rintro (deeper | ⟨level, less⟩)
    · exact .inl (by omega)
    · exact .inr ⟨by omega, less⟩

theorem newPath?_path (init : List String) (name : String) (l : Location)
    (hpath : b.path l = ⟨b.folder ++ init ++ [name]⟩) (h : IsEntryName name) :
    newPath? b.mode (b.path l) =
      if FileName.renamed b.mode name = name then none
      else some ⟨Path.trimmedFront (b.folder ++ init) ++ [FileName.renamed b.mode name]⟩ := by
  rw [hpath]
  exact newPath?_concat b.mode (b.folder ++ init) name h

section
variable {b} {fs : FileSystem} {done : List Location} (hdone : done ⊆ b.entries)
  (image : fs.tree.IsImage t (relabel (namesAfter b.mode done)))

include hdone in
theorem ne_nil_of_mem (m : Location) (hm : m ∈ done) : m ≠ [] := by
  obtain ⟨names, hne, rfl⟩ := b.below m (hdone hm)
  simp [hne]

include image in
theorem reached_after (clear : b.Clear done) :
    fs.tree.walkTo? [] b.folder = some b.location := by
  apply t.walkTo?_of_kept fs.tree b.proper.closed [] b.location b.folder rfl b.reached
  intro l hl there
  apply image.get?_of_kept l there
  apply relabel_of_none_above
  intro m hm filled changed above
  rcases mem_stations_above [] l m b.folder hl above with root | onWay
  · exact filled (List.prefix_nil.mp root)
  · exact clear m hm changed onWay

include hdone image in
theorem not_reached_after (m : Location) (hm : m ∈ done) (changed : Changes b.mode m)
    (onWay : b.PassesThrough m) (rest : List String) :
    fs.tree.walkTo? [] (b.folder ++ rest) = none := by
  have separates := separates_of_subset b.separates hdone
  have closed := image.isClosed b.proper.closed
  have filled := ne_nil_of_mem hdone m hm
  rw [walkTo?_append]
  cases hw : fs.tree.walkTo? [] b.folder with
  | none => rfl
  | some l =>
    have there := fs.tree.contains_of_walkTo? closed [] l b.folder rfl hw m onWay
    obtain ⟨n, hn⟩ := Option.isSome_iff_exists.mp there
    obtain ⟨k, hk, same⟩ := (image (m, n)).mp ((fs.tree.get?_eq_some_iff m filled n).mp hn)
    exact absurd same (relabel_ne_of_changed b.proper.closed separates m m k (b.there m (hdone hm))
      (t.contains_of_mem b.proper.closed _ hk) hm filled changed (List.prefix_refl m))

section
variable (init : List String) (name : String)
  (there : t.contains (b.location ++ init ++ [name]) = true)
  (kept : relabel (namesAfter b.mode done) (b.location ++ init ++ [name]) =
    b.location ++ init ++ [name])

include image there kept in
theorem contains_after : fs.tree.contains (b.location ++ init ++ [name]) = true := by
  rw [contains, image.get?_of_kept _ there kept]
  exact there

include image there kept in
theorem parent_reached_after (clear : b.Clear done)
    (named : ∀ s ∈ init, IsEntryName s ∧ s.utf8ByteSize ≤ Place.maxNameSize) :
    fs.tree.walkTo? [] (b.folder ++ init) = some (b.location ++ init) := by
  have closed := image.isClosed b.proper.closed
  have parent := fs.tree.contains_above closed _ (b.location ++ init)
    (contains_after image init name there kept) (List.prefix_append _ _)
  rw [walkTo?_append, reached_after image clear]
  exact fs.tree.walkTo?_names b.location init named closed parent

theorem nameAt_last :
    nameAt (namesAfter b.mode done) (b.location ++ init ++ [name])
        (FileName.renamed b.mode name) =
      namesAfter b.mode ((b.location ++ init ++ [name]) :: done) := by
  rw [← nameAt_namesAfter, lastName_concat]

include hdone in
theorem separates_after (hl : b.location ++ init ++ [name] ∈ b.entries) :
    t.Separates (nameAt (namesAfter b.mode done) (b.location ++ init ++ [name])
      (FileName.renamed b.mode name)) := by
  rw [nameAt_last]
  exact separates_of_subset b.separates (List.cons_subset.mpr ⟨hl, hdone⟩)

include hdone image there kept in
theorem new_name_free (hl : b.location ++ init ++ [name] ∈ b.entries)
    (changed : FileName.renamed b.mode name ≠ name) :
    fs.tree.get? (b.location ++ init ++ [FileName.renamed b.mode name]) = none := by
  rw [fs.tree.get?_eq_none_iff _ (by simp)]
  intro n hn
  obtain ⟨l, hl', same⟩ := (image _).mp hn
  have apart := not_prefix_relabel b.proper.closed _ name _ there kept
    (separates_of_subset b.separates hdone) (separates_after hdone init name hl) changed l
    (t.contains_of_mem b.proper.closed _ hl')
  exact apart (same ▸ List.prefix_refl _)

end

include hdone image in
theorem rename_of_clear (l : Location) (hl : l ∈ b.entries) (new : Path)
    (hnew : newPath? b.mode (b.path l) = some new) (still : ∀ m ∈ done, ¬ m <+: l)
    (clear : b.Clear done) (fits : new.text.utf8ByteSize < Place.maxPathSize) :
    ∃ fs', fs.rename (b.path l) new = .ok fs' ∧
      fs'.tree.IsImage t (relabel (namesAfter b.mode (l :: done))) := by
  obtain ⟨init, name, rfl, hpath, named⟩ := b.exists_names l hl
  obtain ⟨entryName, size⟩ := named name (by simp)
  have there := b.there _ hl
  have kept := relabel_of_none_above b.mode done _ fun m hm _ _ => still m hm
  have oldText : Place.checkText (b.path _) = .ok () := b.readable _ hl
  have newSize := b.short _ hl
  rw [b.newPath?_path init name _ hpath entryName] at hnew
  split at hnew
  · cases hnew
  rename_i changed
  cases hnew
  rw [hpath] at oldText ⊢
  rw [lastName_concat] at newSize
  have newText := (checkText_renamed b.mode (b.folder ++ init) name entryName oldText).mpr fits
  have plain := image.hasNoLinks b.proper.noLinks
  have present := contains_after image init name there kept
  have directory := fs.tree.isDirectory_of_contains (image.isClosed b.proper.closed) _ _ present
  have walked := parent_reached_after image init name there kept clear
    fun s hs => named s (List.mem_append_left _ hs)
  have trimmed : fs.tree.walkTo? [] (Path.trimmedFront (b.folder ++ init)) =
      some (b.location ++ init) := by
    obtain ⟨idle, split, allIdle⟩ := Path.trimmedFront_append (b.folder ++ init)
    rw [split] at walked
    exact fs.tree.walkTo?_of_append_idle [] _ _ idle allIdle walked
  have oldName := LastName.ofPath_of_walkTo? fs.tree plain _ name entryName _ oldText walked
    directory size
  have newName := LastName.ofPath_of_walkTo? fs.tree plain _ _ (entryName.renamed b.mode) _ newText
    trimmed directory newSize
  obtain ⟨n, found⟩ := Option.isSome_iff_exists.mp present
  obtain ⟨fs', renamed, moved⟩ := fs.rename_of_free _ _ _ name _ n oldName newName found changed
    (new_name_free hdone image init name there kept hl changed)
  refine ⟨fs', renamed, ?_⟩
  rw [moved, ← nameAt_last]
  exact image.move b.proper.closed _ name _ there kept
    (separates_of_subset b.separates hdone) (separates_after hdone init name hl) changed

include hdone image in
theorem rename_of_lost (l : Location) (hl : l ∈ b.entries) (new : Path)
    (hnew : newPath? b.mode (b.path l) = some new)
    (lost : new.text.utf8ByteSize < Place.maxPathSize → ¬ b.Clear done) :
    ∃ e, fs.rename (b.path l) new = .error e := by
  obtain ⟨init, name, -, hpath, named⟩ := b.exists_names l hl
  obtain ⟨entryName, -⟩ := named name (by simp)
  have readable : Place.checkText (b.path l) = .ok () := b.readable l hl
  have plain := image.hasNoLinks b.proper.noLinks
  rw [b.newPath?_path init name l hpath entryName] at hnew
  split at hnew
  · cases hnew
  cases hnew
  rw [hpath] at readable ⊢
  apply fs.rename_of_lost
  by_cases clear : b.Clear done
  · refine .inr (LastName.ofPath_error fs.tree plain _ _ (entryName.renamed b.mode) (.inl ?_))
    exact fun ok => lost ((checkText_renamed b.mode _ name entryName readable).mp ok) clear
  · obtain ⟨m, hm, changed, onWay⟩ : ∃ m ∈ done, Changes b.mode m ∧ b.PassesThrough m := by
      simpa [Clear] using clear
    refine .inl (LastName.ofPath_error fs.tree plain _ name entryName (.inr ?_))
    exact not_reached_after hdone image m hm changed onWay init

end

theorem newPath?_eq_none_iff (l : Location) (hl : l ∈ b.entries) :
    newPath? b.mode (b.path l) = none ↔ ¬ Changes b.mode l := by
  obtain ⟨init, name, hloc, hpath, named⟩ := b.exists_names l hl
  obtain ⟨entryName, -⟩ := named name (by simp)
  have last : lastName l = name := by rw [hloc, lastName_concat]
  rw [b.newPath?_path init name l hpath entryName, Changes, last]
  by_cases same : FileName.renamed b.mode name = name
  · simp [same]
  · simp [same]

/-- The entries that are left can all be renamed after those that are done. -/
def Goes (done rest : List Location) : Prop :=
  (∀ l ∈ rest, Changes b.mode l → b.Fits l ∧ b.Clear done) ∧
  rest.Pairwise fun m l => Changes b.mode m → Changes b.mode l → ¬ b.PassesThrough m

theorem goes_cons (done : List Location) (l : Location) (rest : List Location) :
    b.Goes done (l :: rest) ↔
      (Changes b.mode l → b.Fits l ∧ b.Clear done) ∧ b.Goes (l :: done) rest := by
  unfold Goes Clear
  rw [List.forall_mem_cons, List.pairwise_cons]
  simp only [List.forall_mem_cons]
  constructor
  · rintro ⟨⟨here, there⟩, first, later⟩
    refine ⟨here, ?_, later⟩
    intro k hk changed
    obtain ⟨fits, clear⟩ := there k hk changed
    exact ⟨fits, fun changed' => first k hk changed' changed, clear⟩
  · rintro ⟨here, there, later⟩
    refine ⟨⟨here, ?_⟩, ?_, later⟩
    · intro k hk changed
      obtain ⟨fits, -, clear⟩ := there k hk changed
      exact ⟨fits, clear⟩
    · intro k hk changed changed'
      exact (there k hk changed').2.1 changed

theorem renameEach_eq_ok_iff (fs : FileSystem) (done rest : List Location)
    (hdone : done ⊆ b.entries) (hrest : rest ⊆ b.entries)
    (image : fs.tree.IsImage t (relabel (namesAfter b.mode done)))
    (still : ∀ m ∈ done, ∀ l ∈ rest, ¬ m <+: l) (order : rest.Pairwise fun m l => ¬ m <+: l) :
    ((renameEach b.mode fs (rest.map b.path)).2 = .ok () ↔ b.Goes done rest) ∧
      ((renameEach b.mode fs (rest.map b.path)).2 = .ok () →
        (renameEach b.mode fs (rest.map b.path)).1.tree.IsImage t
          (relabel (namesAfter b.mode (rest.reverse ++ done)))) := by
  induction rest generalizing fs done with
  | nil => exact ⟨⟨fun _ => ⟨by simp, .nil⟩, fun _ => rfl⟩, fun _ => image⟩
  | cons l rest ih =>
    obtain ⟨first, later⟩ := List.pairwise_cons.mp order
    obtain ⟨hl, hrest⟩ := List.cons_subset.mp hrest
    have hnext : l :: done ⊆ b.entries := List.cons_subset.mpr ⟨hl, hdone⟩
    have stillNext : ∀ m ∈ l :: done, ∀ k ∈ rest, ¬ m <+: k :=
      List.forall_mem_cons.mpr ⟨first, fun m hm k hk => still m hm k (List.mem_cons_of_mem _ hk)⟩
    have reversed : (l :: rest).reverse ++ done = rest.reverse ++ l :: done := by simp
    rw [List.map_cons, renameEach, goes_cons, reversed]
    cases hnew : newPath? b.mode (b.path l) with
    | none =>
      have kept := (b.newPath?_eq_none_iff l hl).mp hnew
      rw [← namesAfter_cons_of_not_changes b.mode done l kept] at image
      simp only [kept, false_implies, true_and]
      exact ih fs (l :: done) hnext hrest image stillNext later
    | some new =>
      have changed : Changes b.mode l := by
        by_cases h : Changes b.mode l
        · exact h
        · rw [(b.newPath?_eq_none_iff l hl).mpr h] at hnew
          cases hnew
      have fits : b.Fits l ↔ new.text.utf8ByteSize < Place.maxPathSize := by
        unfold Fits
        rw [hnew]
        simp
      simp only [changed, true_implies, fits]
      by_cases go : new.text.utf8ByteSize < Place.maxPathSize ∧ b.Clear done
      · obtain ⟨fs', renamed, image'⟩ := rename_of_clear hdone image l hl new hnew
          (fun m hm => still m hm l (List.mem_cons_self ..)) go.2 go.1
        simp only [renamed, go.1, go.2, true_and]
        exact ih fs' (l :: done) hnext hrest image' stillNext later
      · have lost : new.text.utf8ByteSize < Place.maxPathSize → ¬ b.Clear done :=
          not_and.mp go
        obtain ⟨e, failed⟩ := rename_of_lost hdone image l hl new hnew lost
        simp only [failed, go, false_and, reduceCtorEq, true_and, false_implies]

end Batch

end SimpleFiles.Rename
