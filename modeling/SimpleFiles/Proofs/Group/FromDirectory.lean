import Mathlib.Data.List.Infix
import SimpleFiles.Execution
import SimpleFiles.Proofs.Group.Transferring

/-! A group of what lies below a directory. It makes its output directory and transfers the
entries that its filter admits, as one batch. -/
namespace SimpleFiles.Group

open FileTree

/-- A group of what lies below a directory that is there, with what it reads. It has no result
of its own from before, and its target names no other. -/
structure FromDirectory (fs : FileSystem) (dir : Path) (memory : Memory) (declared : Instruction)
    (condition : Option Condition) where
  params : Parameters
  filter : Filter
  rawTarget : String
  rawPath : String
  rawMode : String
  location : Location
  action : declared.action = .group
  merged : Parameters.merge .group declared.params (condition.map (·.params)) memory.env =
    .ok params
  filtered : Filter.ofParameters params ownKeys = .ok filter
  target : params.find? "group_target" = some rawTarget
  path : params.find? "path" = some rawPath
  mode : params.find? "mode" = some rawMode
  noResult : memory.results.find? declared.name = none
  noChain : memory.results.find? rawTarget = none
  located : Place.locate fs.tree true (dir.join (.ofText rawTarget)) = .ok location
  isDirectory : fs.tree.isDirectory location = true

namespace FromDirectory

variable {fs : FileSystem} {dir : Path} {memory : Memory} {declared : Instruction}
  {condition : Option Condition} (r : FromDirectory fs dir memory declared condition)

def groupMode : GroupMode := .ofText r.rawMode

def root : Path := dir.join (.ofText r.rawTarget)

def output : Path := dir.join (.ofText r.rawPath)

/-- The entries that the filter admits, in the order of the walk, each with the names that lead
to it from the directory. -/
def matched : List Location :=
  ((fs.tree.under r.location).map Prod.fst).filter fun names =>
    r.filter.accepts fs (r.root.below names)

theorem plan_eq :
    plan fs dir memory declared condition =
      .ok ⟨r.groupMode, r.matched.map r.root.below, r.root, r.output⟩ := by
  have located : Place.locate fs.tree true r.root = .ok r.location := r.located
  have folder : fs.isDirectory r.root = true := by
    rw [fs.isDirectory_of_locate _ _ located, r.isDirectory]
  have entries : r.filter.apply fs (fs.walk r.root) = r.matched.map r.root.below := by
    unfold FileSystem.walk
    rw [located, Filter.apply, matched, List.filter_map, List.filter_map, List.map_map]
    rfl
  have source : candidates fs dir memory declared.name r.params = .ok ⟨r.root, fs.walk r.root⟩ := by
    unfold candidates
    simp only [r.noResult, r.target, r.noChain]
    exact if_pos folder
  unfold plan
  rw [r.merged]
  simp only [Except.mapError, bind, Except.bind, r.filtered, source, r.path, r.mode, entries]
  rfl

theorem mem_matched_iff (names : Location) :
    names ∈ r.matched ↔ names ≠ [] ∧ fs.tree.contains (r.location ++ names) = true ∧
      r.filter.accepts fs (r.root.below names) = true := by
  rw [matched, List.mem_filter, List.mem_map]
  constructor
  · rintro ⟨⟨⟨same, n⟩, inside, rfl⟩, accepted⟩
    obtain ⟨hne, there⟩ := (exists_mem_under_iff fs.tree r.location same).mp ⟨n, inside⟩
    exact ⟨hne, there, accepted⟩
  · rintro ⟨hne, there, accepted⟩
    obtain ⟨n, inside⟩ := (exists_mem_under_iff fs.tree r.location names).mpr ⟨hne, there⟩
    exact ⟨⟨(names, n), inside, rfl⟩, accepted⟩

theorem matched_sorted : r.matched.Pairwise (· < ·) := by
  refine List.Pairwise.filter _ ?_
  rw [List.pairwise_map]
  exact fs.tree.under_sorted r.location

def DestinationsFit : Prop :=
  ∀ names ∈ r.matched, Place.checkText (r.output.below names) = .ok ()

instance : Decidable r.DestinationsFit := inferInstanceAs (Decidable (∀ names ∈ r.matched, _))

/-- There is room for the entries below a location: nothing is at their destinations, and only
directories are on the way there. -/
structure HasRoom (out : Location) : Prop where
  free : ∀ names ∈ r.matched, fs.tree.get? (out ++ names) = none
  roomy : ∀ names ∈ r.matched, ∀ l, l <+: out ++ names → fs.tree.contains l = true →
    fs.tree.isDirectory l = true

instance (out : Location) : Decidable (r.HasRoom out) :=
  decidable_of_iff ((∀ names ∈ r.matched, fs.tree.get? (out ++ names) = none) ∧
      ∀ names ∈ r.matched, ∀ l ∈ (out ++ names).inits, fs.tree.contains l = true →
        fs.tree.isDirectory l = true)
    ⟨fun ⟨free, roomy⟩ => ⟨free, fun names h l above => roomy names h l ((List.mem_inits l _).mpr above)⟩,
      fun h => ⟨h.free, fun names hn l above => h.roomy names hn l ((List.mem_inits l _).mp above)⟩⟩

/-- Neither path passes through an entry that the filter admits. -/
def PathsStay : Prop :=
  ∀ names ∈ r.matched, r.location ++ names ∉ stations [] r.root.segments ∧
    r.location ++ names ∉ stations [] r.output.segments

instance : Decidable r.PathsStay := inferInstanceAs (Decidable (∀ names ∈ r.matched, _))

/-- Nothing is moved into itself, and nothing is moved that a path passes through. -/
structure StaysClear (out : Location) : Prop where
  apart : ∀ names ∈ r.matched, ∀ other ∈ r.matched, ¬ r.location ++ names <+: out ++ other
  paths : r.PathsStay

theorem root_walked (proper : fs.tree.IsProper) :
    fs.tree.walkTo? [] r.root.segments = some r.location :=
  ((Place.locate_eq_ok_iff fs.tree proper.noLinks true r.root r.location).mp r.located).2

theorem root_filled (proper : fs.tree.IsProper) : r.root.text ≠ "" := by
  have asked := ((Place.locate_eq_ok_iff fs.tree proper.noLinks true _ _).mp r.located).1
  exact ((Place.checkText_eq_ok_iff r.root).mp asked).2.1

theorem root_reached (proper : fs.tree.IsProper) :
    fs.tree.walkTo? [] r.root.folder = some r.location := by
  have walked := r.root_walked proper
  rcases r.root.segments_eq_folder with same | trailing
  · rwa [same] at walked
  · rw [trailing] at walked
    exact fs.tree.walkTo?_of_append_idle [] _ _ [""] (by decide) walked

section
variable (proper : fs.tree.IsProper) (start : Location) (way : List String)
  (down : fs.tree.LeadsDown r.output start way) (fit : r.DestinationsFit)
  (room : r.HasRoom (start ++ way))
  (clear : r.groupMode = .move → r.StaysClear (start ++ way)) (fs₁ : FileSystem)
  (furnished : fs.tree.Furnishes (start ++ way) fs₁.tree)

def batch : Batch fs₁.tree where
  mode := r.groupMode
  root := r.root
  output := r.output
  base := r.location
  out := start ++ way
  entries := r.matched
  proper := furnished.proper
  filled := r.root_filled proper
  rootReached := furnished.walkTo? proper.closed [] _ _ rfl (r.root_reached proper)
  outReached := down.walkTo?_of_furnishes proper.closed furnished
  outDirectory := furnished.isDirectory_self (down.roomy way (List.prefix_refl _))
  sorted := r.matched_sorted
  named := fun names h => ((r.mem_matched_iff names).mp h).1
  there := by
    intro names h
    obtain ⟨-, there, -⟩ := (r.mem_matched_iff names).mp h
    rw [contains, furnished.get?_of_contains _ there]
    exact there
  readable := fun names h =>
    r.filter.checkText_of_accepts fs _ ((r.mem_matched_iff names).mp h).2.2
  writable := fit
  free := by
    intro names h
    rw [furnished.get?_below names ((r.mem_matched_iff names).mp h).1]
    exact room.free names h
  roomy := by
    intro names h m hm there
    obtain ⟨n, found⟩ := (fs₁.tree.contains_iff _).mp there
    rw [furnished.get?] at found
    split at found
    · rename_i made
      rw [isDirectory_iff, furnished.get?, if_pos made]
    · refine furnished.isDirectory_of _ (room.roomy names h _ ?_ ?_)
      · exact (List.prefix_append_right_inj _).mpr hm
      · exact (fs.tree.contains_iff _).mpr ⟨n, found⟩
  apart := fun moves => (clear moves).apart
  clear := fun moves names h =>
    ⟨fun onWay => ((clear moves).paths names h).1 ((r.root.mem_stations_folder _).mp onWay),
      fun onWay => ((clear moves).paths names h).2 ((r.output.mem_stations_folder _).mp onWay)⟩

include proper down fit room clear in
theorem exists_run :
    ∃ (fs₁ : FileSystem) (furnished : fs.tree.Furnishes (start ++ way) fs₁.tree)
      (files : FileSystem),
      (r.batch proper start way down fit room clear fs₁ furnished).At r.matched files.tree ∧
        Execution.run fs dir memory declared condition =
          (files, .ok (memory.store declared.name ⟨r.output,
            (r.matched.filter
              (r.batch proper start way down fit room clear fs₁ furnished).Counts).map
                r.output.below⟩)) := by
  obtain ⟨fs₁, made, furnished⟩ := fs.createAll_of_leadsDown r.output proper start way down
  let b := r.batch proper start way down fit room clear fs₁ furnished
  have now : b.At [] fs₁.tree := ⟨furnished.proper, fun l => (b.after_nil l).symm⟩
  obtain ⟨files, transferred, now'⟩ := b.transferEach_eq fs₁ [] r.matched rfl now
  refine ⟨fs₁, furnished, files, now', ?_⟩
  have each : transferEach r.groupMode r.root r.output fs₁ (r.matched.map r.root.below) =
      (files, (r.matched.filter b.Counts).map r.output.below) := transferred
  unfold Execution.run Execution.act
  rw [r.action]
  simp only [Group.run, r.plan_eq, perform, made, each]
  rfl

end

end FromDirectory
end SimpleFiles.Group
