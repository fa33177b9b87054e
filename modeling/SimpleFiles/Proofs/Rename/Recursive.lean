import Mathlib.Data.List.Nodup
import Mathlib.Data.List.Perm.Basic
import SimpleFiles.Proofs.FileTree.Lookup
import SimpleFiles.Proofs.Path.Steps
import SimpleFiles.Proofs.Rename.Batch

/-! A rename on all levels of a directory. Where it ends, every entry that the filter
admits has its new name and nothing else has changed; and it is told from the directory's
path and the lengths of the new paths whether it gets there. -/
namespace SimpleFiles.Rename

open FileTree

/-- A rename on all levels of a directory that is there, with what it reads. -/
structure Recursive (fs : FileSystem) (dir : Path) (memory : Memory) (declared : Instruction)
    (condition : Option Condition) where
  params : Parameters
  rawPath : String
  rawMode : String
  filter : Filter
  location : Location
  merged : Parameters.merge .rename declared.params (condition.map (·.params)) memory.env =
    .ok params
  path : params.find? "path" = some rawPath
  mode : params.find? "mode" = some rawMode
  filtered : Filter.ofParameters params ownKeys = .ok filter
  recursive : isRecursive params = true
  located : Place.locate fs.tree true (target dir memory rawPath).1 = .ok location
  isDirectory : fs.tree.isDirectory location = true

namespace Recursive

variable {fs : FileSystem} {dir : Path} {memory : Memory} {declared : Instruction}
  {condition : Option Condition} (r : Recursive fs dir memory declared condition)

def caseMode : CaseMode := .ofText r.rawMode

def directory : Path := (target dir memory r.rawPath).1

/-- The filter admits the entry, which lies below the directory. -/
def Matches (l : Location) : Bool :=
  (below? r.location l).any fun names => r.filter.accepts fs (r.directory.below names)

def finalName (l : Location) : String :=
  if r.Matches l then FileName.renamed r.caseMode (lastName l) else lastName l

/-- In the directory and in those below it, entries end up with different names that are not
too long. -/
structure HasLegalNames : Prop where
  distinct : ∀ parent a b, r.location <+: parent → fs.tree.contains (parent ++ [a]) = true →
    fs.tree.contains (parent ++ [b]) = true →
    r.finalName (parent ++ [a]) = r.finalName (parent ++ [b]) → a = b
  short : ∀ parent a, r.location <+: parent → fs.tree.contains (parent ++ [a]) = true →
    (r.finalName (parent ++ [a])).utf8ByteSize ≤ Place.maxNameSize

def Moves (l : Location) : Prop := fs.tree.contains l = true ∧ r.finalName l ≠ lastName l

def NewPathsFit : Prop :=
  ∀ names new, r.Moves (r.location ++ names) →
    newPath? r.caseMode (r.directory.below names) = some new →
    new.text.utf8ByteSize < Place.maxPathSize

/-- The path of the directory does not pass through an entry that gets another name, except
for the one that is renamed last. -/
def WayStays : Prop :=
  ∀ l m, r.Moves l → r.Moves m → Before l m → l ∉ stations [] r.directory.segments

theorem plan_eq :
    plan fs dir memory declared condition =
      .ok ⟨r.caseMode, deepestFirst (r.filter.apply fs (fs.walk r.directory))⟩ := by
  have there : fs.pathExists (target dir memory r.rawPath).1 = true :=
    fs.pathExists_of_locate _ r.location r.located
  have folder : fs.isDirectory (target dir memory r.rawPath).1 = true := by
    rw [fs.isDirectory_of_locate _ r.location r.located, r.isDirectory]
  unfold plan
  rw [r.merged]
  simp only [Except.mapError, bind, Except.bind, r.path, r.mode, r.filtered, there, folder,
    r.recursive, candidates, Bool.not_true, Bool.false_eq_true, if_false, if_true]
  rfl

/-- The entries below the directory, in the order of the walk. -/
def inside : List Location := (fs.tree.under r.location).map fun e => r.location ++ e.1

/-- Those among them that are to be renamed. -/
def matched : List Location := r.inside.filter r.Matches

theorem mem_inside_iff (l : Location) :
    l ∈ r.inside ↔ fs.tree.contains l = true ∧ ∃ names, names ≠ [] ∧ l = r.location ++ names := by
  rw [inside, List.mem_map]
  constructor
  · rintro ⟨⟨names, n⟩, hn, rfl⟩
    obtain ⟨hne, there⟩ := (exists_mem_under_iff fs.tree r.location names).mp ⟨n, hn⟩
    exact ⟨there, names, hne, rfl⟩
  · rintro ⟨there, names, hne, rfl⟩
    obtain ⟨n, hn⟩ := (exists_mem_under_iff fs.tree r.location names).mpr ⟨hne, there⟩
    exact ⟨(names, n), hn, rfl⟩

theorem inside_sorted : r.inside.Pairwise (· < ·) := by
  rw [inside, List.pairwise_map]
  exact (fs.tree.under_sorted r.location).imp fun before =>
    (append_lt_append_iff r.location _ _).mpr before

theorem mem_inside_of_mem_matched (l : Location) (h : l ∈ r.matched) : l ∈ r.inside :=
  List.mem_of_mem_filter h

theorem matched_sorted : r.matched.Pairwise (· < ·) := r.inside_sorted.filter _

theorem matches_iff (l : Location) :
    r.Matches l = true ↔ ∃ names, names ≠ [] ∧ l = r.location ++ names ∧
      r.filter.accepts fs (r.directory.below names) = true := by
  rw [Matches, Option.any_eq_true]
  constructor
  · rintro ⟨names, below, accepted⟩
    obtain ⟨hne, rfl⟩ := (below?_eq_some_iff r.location l names).mp below
    exact ⟨names, hne, rfl, accepted⟩
  · rintro ⟨names, hne, rfl, accepted⟩
    exact ⟨names, (below?_eq_some_iff r.location _ names).mpr ⟨hne, rfl⟩, accepted⟩

theorem mem_matched_iff (l : Location) :
    l ∈ r.matched ↔ fs.tree.contains l = true ∧ r.Matches l = true := by
  rw [matched, List.mem_filter, r.mem_inside_iff]
  constructor
  · rintro ⟨⟨there, -⟩, admitted⟩
    exact ⟨there, admitted⟩
  · rintro ⟨there, admitted⟩
    obtain ⟨names, hne, below, -⟩ := (r.matches_iff l).mp admitted
    exact ⟨⟨there, names, hne, below⟩, admitted⟩

theorem finalName_eq (l : Location) (hl : fs.tree.contains l = true) :
    r.finalName l = namesAfter r.caseMode r.matched l := by
  unfold finalName
  by_cases admitted : r.Matches l = true
  · rw [if_pos admitted, namesAfter_of_mem ((r.mem_matched_iff l).mpr ⟨hl, admitted⟩)]
  · rw [if_neg admitted,
      namesAfter_of_not_mem fun found => admitted ((r.mem_matched_iff l).mp found).2]

theorem concat_mem_inside_iff (parent : Location) (name : String) :
    parent ++ [name] ∈ r.inside ↔
      r.location <+: parent ∧ fs.tree.contains (parent ++ [name]) = true := by
  rw [r.mem_inside_iff]
  constructor
  · rintro ⟨there, names, hne, split⟩
    obtain ⟨init, last, rfl⟩ := (List.eq_nil_or_concat' names).resolve_left hne
    rw [← List.append_assoc] at split
    exact ⟨⟨init, (List.append_inj_left' split rfl).symm⟩, there⟩
  · rintro ⟨⟨names, rfl⟩, there⟩
    exact ⟨there, names ++ [name], by simp, List.append_assoc ..⟩

theorem exists_parent_of_mem_inside (l : Location) (h : l ∈ r.inside) :
    ∃ parent name, l = parent ++ [name] ∧ r.location <+: parent := by
  have filled : l ≠ [] := by
    rintro rfl
    obtain ⟨-, names, hne, none⟩ := (r.mem_inside_iff []).mp h
    exact hne (List.append_eq_nil_iff.mp none.symm).2
  obtain ⟨parent, name, rfl⟩ := (List.eq_nil_or_concat' l).resolve_left filled
  exact ⟨parent, name, rfl, ((r.concat_mem_inside_iff parent name).mp h).1⟩

theorem hasLegalNames_iff : r.HasLegalNames ↔
    (r.inside.map fun l => (l.dropLast, r.finalName l)).Nodup ∧
      ∀ l ∈ r.inside, (r.finalName l).utf8ByteSize ≤ Place.maxNameSize := by
  have nodup : r.inside.Pairwise fun l m => l ≠ m := by
    refine r.inside_sorted.imp ?_
    rintro l m before rfl
    exact List.lt_irrefl _ before
  rw [List.nodup_map_iff_inj_on nodup]
  constructor
  · rintro ⟨distinct, short⟩
    refine ⟨?_, ?_⟩
    · intro l hl m hm same
      obtain ⟨parent, a, rfl, within⟩ := r.exists_parent_of_mem_inside l hl
      obtain ⟨parent', b, rfl, -⟩ := r.exists_parent_of_mem_inside m hm
      obtain ⟨level, names⟩ := Prod.mk.inj same
      rw [List.dropLast_concat, List.dropLast_concat] at level
      subst level
      rw [distinct parent a b within ((r.concat_mem_inside_iff parent a).mp hl).2
        ((r.concat_mem_inside_iff parent b).mp hm).2 names]
    · intro l hl
      obtain ⟨parent, a, rfl, within⟩ := r.exists_parent_of_mem_inside l hl
      exact short parent a within ((r.concat_mem_inside_iff parent a).mp hl).2
  · rintro ⟨distinct, short⟩
    refine ⟨?_, ?_⟩
    · intro parent a b within ha hb same
      have equal := distinct _ ((r.concat_mem_inside_iff parent a).mpr ⟨within, ha⟩) _
        ((r.concat_mem_inside_iff parent b).mpr ⟨within, hb⟩)
        (Prod.ext (by rw [List.dropLast_concat, List.dropLast_concat]) same)
      exact (List.cons.inj (List.append_cancel_left equal)).1
    · intro parent a within ha
      exact short _ ((r.concat_mem_inside_iff parent a).mpr ⟨within, ha⟩)

instance : Decidable r.HasLegalNames := decidable_of_iff' _ r.hasLegalNames_iff

section
variable (proper : fs.tree.IsProper) (legal : r.HasLegalNames)

include legal in
theorem separates_matched : fs.tree.Separates (namesAfter r.caseMode r.matched) := by
  intro parent a b ha hb same
  rw [← r.finalName_eq _ ha, ← r.finalName_eq _ hb] at same
  by_cases below : r.location <+: parent
  · exact legal.distinct parent a b below ha hb same
  · have kept : ∀ s, fs.tree.contains (parent ++ [s]) = true → r.finalName (parent ++ [s]) = s := by
      intro s there
      rw [r.finalName_eq _ there, namesAfter_of_not_mem, lastName_concat]
      intro found
      exact below ((r.concat_mem_inside_iff parent s).mp (r.mem_inside_of_mem_matched _ found)).1
    rwa [kept a ha, kept b hb] at same

include proper in
theorem entryName_of_contains (names : List String) (hne : names ≠ [])
    (h : fs.tree.contains (r.location ++ names) = true) : ∀ s ∈ names, IsEntryName s := by
  obtain ⟨n, hn⟩ := Option.isSome_iff_exists.mp h
  have listed := (fs.tree.get?_eq_some_iff _ (by simp [hne]) n).mp hn
  intro s hs
  exact (proper.named _ listed s (List.mem_append_right _ hs)).1

include proper in
theorem reached :
    Place.checkText r.directory = .ok () ∧
      fs.tree.walkTo? [] r.directory.folder = some r.location := by
  obtain ⟨text, walked⟩ := (Place.locate_eq_ok_iff fs.tree proper.noLinks true r.directory
    r.location).mp r.located
  refine ⟨text, ?_⟩
  rcases r.directory.segments_eq_folder with same | trailing
  · rw [← same]
    exact walked
  · rw [trailing] at walked
    exact fs.tree.walkTo?_of_append_idle [] _ _ [""] (by decide) walked

include proper in
theorem below_eq_of_matched (names : List String) (h : r.location ++ names ∈ r.matched)
    (hne : names ≠ []) : r.directory.below names = ⟨r.directory.folder ++ names⟩ :=
  r.directory.below_eq names hne
    (r.entryName_of_contains proper names hne ((r.mem_matched_iff _).mp h).1)

def batch : Batch fs.tree where
  mode := r.caseMode
  folder := r.directory.folder
  location := r.location
  entries := r.matched
  proper := proper
  filled := r.directory.folder_ne_nil
    ((Place.checkText_eq_ok_iff r.directory).mp (r.reached proper).1).2.1
  reached := (r.reached proper).2
  below := by
    intro l hl
    obtain ⟨names, hne, rfl, -⟩ := (r.matches_iff l).mp ((r.mem_matched_iff l).mp hl).2
    exact ⟨names, hne, rfl⟩
  there := fun l hl => ((r.mem_matched_iff l).mp hl).1
  readable := by
    intro l hl
    obtain ⟨names, hne, rfl, accepted⟩ := (r.matches_iff l).mp ((r.mem_matched_iff l).mp hl).2
    rw [List.drop_left, ← r.below_eq_of_matched proper names hl hne]
    exact r.filter.checkText_of_accepts fs _ accepted
  short := by
    intro l hl
    obtain ⟨there, admitted⟩ := (r.mem_matched_iff l).mp hl
    obtain ⟨parent, name, rfl, within⟩ :=
      r.exists_parent_of_mem_inside l (r.mem_inside_of_mem_matched l hl)
    have size := legal.short parent name within there
    rwa [finalName, if_pos admitted] at size
  separates := r.separates_matched legal

theorem apply_walk :
    r.filter.apply fs (fs.walk r.directory) = r.matched.map (r.batch proper legal).path := by
  have located : Place.locate fs.tree true r.directory = .ok r.location := r.located
  have found : fs.walk r.directory =
      (fs.tree.under r.location).map fun e => r.directory.below e.1 := by
    unfold FileSystem.walk
    rw [located]
  have names : ∀ e ∈ fs.tree.under r.location, e.1 ≠ [] ∧
      fs.tree.contains (r.location ++ e.1) = true := by
    intro e he
    obtain ⟨hne, listed⟩ := (mem_under_iff fs.tree r.location e.1 e.2).mp he
    exact ⟨hne, fs.tree.contains_of_mem proper.closed _ listed⟩
  have admits : ∀ e ∈ fs.tree.under r.location,
      r.filter.accepts fs (r.directory.below e.1) = r.Matches (r.location ++ e.1) := by
    intro e he
    rw [Matches, (below?_eq_some_iff r.location _ e.1).mpr ⟨(names e he).1, rfl⟩, Option.any_some]
  rw [found, Filter.apply, matched, inside, List.filter_map, List.filter_map, List.map_map]
  have same : (fs.tree.under r.location).filter
      (r.filter.accepts fs ∘ fun e => r.directory.below e.1) =
      (fs.tree.under r.location).filter (r.Matches ∘ fun e => r.location ++ e.1) :=
    List.filter_congr admits
  rw [same]
  apply List.map_congr_left
  intro e he
  obtain ⟨hne, there⟩ := names e (List.mem_of_mem_filter he)
  show r.directory.below e.1 = (r.batch proper legal).path (r.location ++ e.1)
  rw [r.directory.below_eq e.1 hne (r.entryName_of_contains proper e.1 hne there), Batch.path]
  show _ = Path.mk (r.directory.folder ++ (r.location ++ e.1).drop r.location.length)
  rw [List.drop_left]

theorem exists_order :
    ∃ order : List Location, order.Perm r.matched ∧ order.Pairwise Before ∧
      deepestFirst (r.filter.apply fs (fs.walk r.directory)) =
        order.map (r.batch proper legal).path := by
  let b := r.batch proper legal
  have sorted : (r.matched.map b.path).Pairwise fun p q => p.segments < q.segments := by
    rw [List.pairwise_map]
    exact r.matched_sorted.imp_of_mem fun hl hm before => (b.segments_lt_iff _ _ hl hm).mpr before
  have perm := deepestFirst_perm (r.matched.map b.path)
  obtain ⟨order, listed, permuted⟩ :
      Relation.Comp (· = List.map b.path ·) List.Perm (deepestFirst (r.matched.map b.path))
        r.matched := by
    rw [List.eq_map_comp_perm]
    exact perm
  have earlier := deepestFirst_pairwise _ sorted
  refine ⟨order, permuted, ?_, by rw [r.apply_walk proper legal, listed]⟩
  rw [listed, List.pairwise_map] at earlier
  exact earlier.imp_of_mem fun hl hm h =>
    (b.earlier_iff _ _ (permuted.subset hl) (permuted.subset hm)).mp h

end

theorem mem_matched_and_changes_iff (l : Location) :
    l ∈ r.matched ∧ Changes r.caseMode l ↔ r.Moves l := by
  unfold Moves Changes finalName
  rw [r.mem_matched_iff]
  constructor
  · rintro ⟨⟨there, admitted⟩, changed⟩
    rw [if_pos admitted]
    exact ⟨there, changed⟩
  · rintro ⟨there, changed⟩
    split at changed
    · rename_i admitted
      exact ⟨⟨there, admitted⟩, changed⟩
    · exact absurd rfl changed

section
variable (proper : fs.tree.IsProper) (legal : r.HasLegalNames)

theorem fits_iff (names : List String) (hl : r.location ++ names ∈ r.matched) :
    (r.batch proper legal).Fits (r.location ++ names) ↔
      ∀ new, newPath? r.caseMode (r.directory.below names) = some new →
        new.text.utf8ByteSize < Place.maxPathSize := by
  have hne : names ≠ [] := by
    obtain ⟨names', hne, same, -⟩ := (r.matches_iff _).mp ((r.mem_matched_iff _).mp hl).2
    rw [List.append_cancel_left same]
    exact hne
  have path : (r.batch proper legal).path (r.location ++ names) = r.directory.below names := by
    rw [r.below_eq_of_matched proper names hl hne]
    show Path.mk (r.directory.folder ++ (r.location ++ names).drop r.location.length) = _
    rw [List.drop_left]
  rw [Batch.Fits, path]
  rfl

theorem passesThrough_iff (l : Location) :
    (r.batch proper legal).PassesThrough l ↔ l ∈ stations [] r.directory.segments :=
  r.directory.mem_stations_folder l

theorem goes_iff (order : List Location) (perm : order.Perm r.matched)
    (sorted : order.Pairwise Before) :
    (r.batch proper legal).Goes [] order ↔ r.NewPathsFit ∧ r.WayStays := by
  unfold Batch.Goes
  rw [pairwise_iff_forall_earlier Before _ Before.asymm order sorted]
  constructor
  · rintro ⟨fits, clear⟩
    refine ⟨?_, ?_⟩
    · intro names new moves
      obtain ⟨found, changed⟩ := (r.mem_matched_and_changes_iff _).mpr moves
      exact (r.fits_iff proper legal names found).mp
        (fits _ (perm.mem_iff.mpr found) changed).1 new
    · intro l m moves moves' before onWay
      obtain ⟨found, changed⟩ := (r.mem_matched_and_changes_iff l).mpr moves
      obtain ⟨found', changed'⟩ := (r.mem_matched_and_changes_iff m).mpr moves'
      exact clear l (perm.mem_iff.mpr found) m (perm.mem_iff.mpr found') before changed changed'
        ((r.passesThrough_iff proper legal l).mpr onWay)
  · rintro ⟨fits, stays⟩
    refine ⟨?_, ?_⟩
    · intro l hl changed
      have found := perm.mem_iff.mp hl
      have moves := (r.mem_matched_and_changes_iff l).mp ⟨found, changed⟩
      obtain ⟨names, -, rfl⟩ := (r.batch proper legal).below l found
      exact ⟨(r.fits_iff proper legal names found).mpr fun new => fits names new moves,
        fun m hm => absurd hm List.not_mem_nil⟩
    · intro l hl m hm before changed changed' onWay
      exact stays l m ((r.mem_matched_and_changes_iff l).mp ⟨perm.mem_iff.mp hl, changed⟩)
        ((r.mem_matched_and_changes_iff m).mp ⟨perm.mem_iff.mp hm, changed'⟩) before
        ((r.passesThrough_iff proper legal l).mp onWay)

end

theorem wayStays_of_no_parent (proper : fs.tree.IsProper)
    (down : ".." ∉ r.directory.segments) : r.WayStays := by
  rintro l - moves - - onWay
  obtain ⟨-, walked⟩ := (Place.locate_eq_ok_iff fs.tree proper.noLinks true r.directory
    r.location).mp r.located
  have above := fs.tree.prefix_of_mem_stations [] r.location l _ down walked onWay
  obtain ⟨found, -⟩ := (r.mem_matched_and_changes_iff l).mpr moves
  obtain ⟨parent, name, rfl, within⟩ :=
    r.exists_parent_of_mem_inside l (r.mem_inside_of_mem_matched l found)
  have long := (above.trans within).length_le
  rw [List.length_append, List.length_singleton] at long
  omega

/-- A rename on all levels succeeds exactly if no new path is too long and the path of the
directory does not pass through an entry that is renamed before the last. When it succeeds,
the entries are the same as before, each below the same one, with their final names. -/
theorem run_eq_ok_iff (proper : fs.tree.IsProper) (legal : r.HasLegalNames) :
    ((run fs dir memory declared condition).2 = .ok () ↔ r.NewPathsFit ∧ r.WayStays) ∧
      ((run fs dir memory declared condition).2 = .ok () →
        (run fs dir memory declared condition).1.tree.entries.Perm
          (fs.tree.entries.map fun e => (relabel r.finalName e.1, e.2))) := by
  obtain ⟨order, perm, sorted, listed⟩ := r.exists_order proper legal
  have planned : run fs dir memory declared condition =
      renameEach r.caseMode fs (order.map (r.batch proper legal).path) := by
    unfold run
    simp only [r.plan_eq, listed]
  obtain ⟨success, image⟩ := (r.batch proper legal).renameEach_eq_ok_iff fs [] order (by simp)
    perm.subset (isImage_self fs.tree r.caseMode) (by simp) (sorted.imp Before.not_above)
  rw [planned]
  refine ⟨success.trans (r.goes_iff proper legal order perm sorted), ?_⟩
  intro ok
  have final : ∀ l, fs.tree.contains l = true →
      relabel (namesAfter r.caseMode (order.reverse ++ [])) l = relabel r.finalName l := by
    intro l hl
    apply relabel_congr
    intro m _ above
    have there := fs.tree.contains_above proper.closed l m hl above
    rw [r.finalName_eq m there]
    exact namesAfter_congr r.caseMode _ r.matched m (by simp [perm.mem_iff])
  have separates : fs.tree.Separates (namesAfter r.caseMode (order.reverse ++ [])) :=
    separates_of_subset (r.separates_matched legal) fun l hl => perm.mem_iff.mp (by simpa using hl)
  have same : (fs.tree.entries.map fun e => (relabel r.finalName e.1, e.2)) =
      fs.tree.entries.map fun e =>
        (relabel (namesAfter r.caseMode (order.reverse ++ [])) e.1, e.2) := by
    apply List.map_congr_left
    intro e he
    rw [final e.1 (fs.tree.contains_of_mem proper.closed e he)]
  rw [same]
  exact (image ok).perm proper.closed separates

end Recursive

def raise (path : String) : Instruction :=
  ⟨"raise", .rename, [⟨"path", path, .zero⟩, ⟨"mode", "upper_case", .zero⟩], .zero⟩

def nested : FileSystem where
  tree := .ofList [(["docs"], .directory), (["docs", "old"], .directory),
    (["docs", "old", "note.txt"], .file .empty)]
  clock := ⟨2024, 1, 1, 0, 0, 0⟩

def Recursive.nested : Recursive nested (.ofText "/") .empty (raise "docs") none where
  params := ⟨[("mode", "upper_case"), ("path", "docs")]⟩
  rawPath := "docs"
  rawMode := "upper_case"
  filter := {}
  location := ["docs"]
  merged := by decide +kernel
  path := by decide
  mode := by decide
  filtered := by decide +kernel
  recursive := by decide +kernel
  located := by decide +kernel
  isDirectory := by decide

theorem run_nested :
    nested.tree.IsProper ∧ Recursive.nested.HasLegalNames ∧
      Recursive.nested.NewPathsFit ∧ Recursive.nested.WayStays ∧
      (run nested (.ofText "/") .empty (raise "docs") none).1.tree.entries.Perm
        (nested.tree.entries.map fun e => (relabel Recursive.nested.finalName e.1, e.2)) := by
  have proper : nested.tree.IsProper := by decide +kernel
  have legal : Recursive.nested.HasLegalNames := by decide +kernel
  have ok : (run nested (.ofText "/") .empty (raise "docs") none).2 = .ok () := by decide +kernel
  obtain ⟨success, entries⟩ := Recursive.nested.run_eq_ok_iff proper legal
  exact ⟨proper, legal, (success.mp ok).1, (success.mp ok).2, entries ok⟩

example :
    (run { tree := .ofList [(["sub"], .directory), (["zeta"], .file .empty)]
           clock := ⟨2024, 1, 1, 0, 0, 0⟩ } (.ofText "/") .empty (raise "sub/..") none).2 =
      .error (.renameFailed ⟨["", "sub", "..", "zeta"]⟩ .noEntry) := by
  decide +kernel

end SimpleFiles.Rename
