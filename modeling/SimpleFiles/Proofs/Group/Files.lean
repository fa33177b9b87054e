import SimpleFiles.Proofs.Group.Copying
import SimpleFiles.Proofs.Group.FromDirectory

/-! A group of files. Nothing lies below a file, so each one is transferred by itself, and no
path that leads to a directory passes it: the output directory may be anywhere, within the
directory that the files come from as well as above it. -/
namespace SimpleFiles.Group

open FileTree

namespace FromDirectory

variable {fs : FileSystem} {dir : Path} {memory : Memory} {declared : Instruction}
  {condition : Option Condition} (r : FromDirectory fs dir memory declared condition)

/-- The location is the output directory or a destination, or leads to one. -/
def OnWay (out l : Location) : Prop := l <+: out ∨ ∃ names ∈ r.matched, l <+: out ++ names

instance (out l : Location) : Decidable (r.OnWay out l) :=
  inferInstanceAs (Decidable (_ ∨ _))

structure Gathered (out : Location) (u : FileTree) : Prop where
  proper : u.IsProper
  /-- Each file is below the output directory where it was below the target, with its content;
  one that is moved is gone from its place. -/
  delivered : ∀ names ∈ r.matched, ∃ content,
    fs.tree.get? (r.location ++ names) = some (.file content) ∧
      u.get? (out ++ names) = some (.file content) ∧
      u.get? (r.location ++ names) =
        match r.groupMode with
        | .move => none
        | .copy => some (.file content)
  /-- Elsewhere, only the directories are made that lead to the output directory and to the
  files. -/
  elsewhere : ∀ l, (∀ names ∈ r.matched, l ≠ out ++ names) →
    (r.groupMode = .move → ∀ names ∈ r.matched, l ≠ r.location ++ names) →
    u.get? l = if fs.tree.get? l = none ∧ r.OnWay out l then some .directory else fs.tree.get? l

theorem locate_matched (proper : fs.tree.IsProper) (names : Location) (h : names ∈ r.matched) :
    Place.locate fs.tree true (r.root.below names) = .ok (r.location ++ names) := by
  obtain ⟨filled, there, accepted⟩ := (r.mem_matched_iff names).mp h
  exact Place.locate_below proper r.root r.location names (r.root_reached proper) filled
    (r.filter.checkText_of_accepts fs _ accepted) there

section
variable (proper : fs.tree.IsProper) (files : r.filter.kind = some .file)

include proper files

theorem exists_content (names : Location) (h : names ∈ r.matched) :
    ∃ content, fs.tree.get? (r.location ++ names) = some (.file content) := by
  obtain ⟨-, there, accepted⟩ := (r.mem_matched_iff names).mp h
  have noDirectory := r.filter.isDirectory_eq_false_of_accepts files fs _ _
    (r.locate_matched proper names h) accepted
  obtain ⟨n, found⟩ := (fs.tree.contains_iff _).mp there
  rw [FileTree.isDirectory, found] at noDirectory
  cases n with
  | file content => exact ⟨content, found⟩
  | directory => cases noDirectory
  | link target => exact absurd found (proper.noLinks.get?_ne_link _ target)

theorem isDirectory_matched (names : Location) (h : names ∈ r.matched) :
    fs.tree.isDirectory (r.location ++ names) = false := by
  obtain ⟨content, found⟩ := r.exists_content proper files names h
  rw [FileTree.isDirectory, found]
  rfl

theorem get?_below_matched (names rest : Location) (h : names ∈ r.matched) (hr : rest ≠ []) :
    fs.tree.get? (r.location ++ names ++ rest) = none :=
  proper.closed.get?_below _ rest hr (r.isDirectory_matched proper files names h)

theorem eq_of_prefix (names other : Location) (h : names ∈ r.matched) (h' : other ∈ r.matched)
    (above : names <+: other) : names = other := by
  obtain ⟨rest, rfl⟩ := above
  by_contra differ
  obtain ⟨content, found⟩ := r.exists_content proper files _ h'
  rw [← List.append_assoc,
    r.get?_below_matched proper files names rest h fun none => differ (by simp [none])] at found
  cases found

variable (start : Location) (way : List String) (down : fs.tree.LeadsDown r.output start way)
  (fit : r.DestinationsFit) (room : r.HasRoom (start ++ way))

include down room in
theorem staysClear : r.StaysClear (start ++ way) := by
  obtain ⟨u, furnished, outReached, outDirectory⟩ :=
    fs.exists_furnished r.output proper start way down
  refine ⟨?_, fun names h => ⟨?_, ?_⟩⟩
  · intro names h other h' within
    have directory := room.roomy other h' _ within ((r.mem_matched_iff names).mp h).2.1
    rw [r.isDirectory_matched proper files names h] at directory
    cases directory
  · intro onWay
    have directory := fs.tree.isDirectory_of_mem_stations [] _ _ _ (r.root_walked proper)
      r.isDirectory onWay
    rw [r.isDirectory_matched proper files names h] at directory
    cases directory
  · intro onWay
    have directory := u.isDirectory_of_mem_stations [] _ _ _ outReached outDirectory
      ((r.output.mem_stations_folder _).mpr onWay)
    rw [FileTree.isDirectory, furnished.get?_of_contains _ ((r.mem_matched_iff names).mp h).2.1,
      ← FileTree.isDirectory, r.isDirectory_matched proper files names h] at directory
    cases directory

include down room in
theorem not_onWay_of_source (names rest : Location) (h : names ∈ r.matched) :
    ¬ r.OnWay (start ++ way) (r.location ++ names ++ rest) := by
  have apart := (r.staysClear proper files start way down room).apart names h
  rintro (above | ⟨other, h', above⟩)
  · exact apart names h ((List.prefix_append _ rest).trans (above.trans (List.prefix_append _ names)))
  · exact apart other h' ((List.prefix_append _ rest).trans above)

theorem not_onWay_of_destination (out names rest : Location) (h : names ∈ r.matched)
    (hr : rest ≠ []) : ¬ r.OnWay out (out ++ names ++ rest) := by
  have long := List.length_pos_of_ne_nil hr
  rintro (above | ⟨other, h', above⟩)
  · have short := above.length_le
    simp only [List.length_append] at short
    omega
  · rw [List.append_assoc, List.prefix_append_right_inj] at above
    have same := r.eq_of_prefix proper files names other h h' ((List.prefix_append _ rest).trans above)
    have short := above.length_le
    rw [List.length_append, same] at short
    omega

include down room in
theorem after_elsewhere {fs₁ : FileSystem} (furnished : fs.tree.Furnishes (start ++ way) fs₁.tree)
    (l : Location) (noDestination : ∀ names ∈ r.matched, l ≠ start ++ way ++ names)
    (noSource : r.groupMode = .move → ∀ names ∈ r.matched, l ≠ r.location ++ names) :
    (r.batch proper start way down fit room
        (fun _ => r.staysClear proper files start way down room) fs₁ furnished).after r.matched l =
      if fs.tree.get? l = none ∧ r.OnWay (start ++ way) l then some .directory
      else fs.tree.get? l := by
  let b := r.batch proper start way down fit room
    (fun _ => r.staysClear proper files start way down room) fs₁ furnished
  have clear := r.not_onWay_of_source proper files start way down room
  by_cases delivered : b.Delivers r.matched l
  · obtain ⟨names, h, rest, rfl⟩ : ∃ names ∈ r.matched, start ++ way ++ names <+: l :=
      b.exists_of_delivers delivered
    have hr : rest ≠ [] := fun none => noDestination names h (by simp [none])
    have free := proper.closed.get?_of_missing _ rest (room.free names h)
    have source : fs₁.tree.get? (r.location ++ names ++ rest) = none := by
      rw [furnished.get?, r.get?_below_matched proper files names rest h hr,
        if_neg fun made => clear names rest h (.inl made.2)]
    rw [free, if_neg fun made => r.not_onWay_of_destination proper files _ names rest h hr made.2]
    rw [List.append_assoc] at delivered source ⊢
    exact (b.after_of_delivers _ delivered).trans source
  by_cases removed : b.Removes r.matched l
  · obtain ⟨names, h, rest, rfl⟩ : ∃ names ∈ r.matched, r.location ++ names <+: l := removed.2
    have hr : rest ≠ [] := fun none => noSource removed.1 names h (by simp [none])
    have missing := r.get?_below_matched proper files names rest h hr
    rw [Batch.after, if_neg delivered, if_pos removed, if_neg fun made => clear names rest h made.2]
    exact missing.symm
  by_cases made : b.Makes r.matched l
  · have missing := made.1
    rw [furnished.get?] at missing
    split at missing
    · cases missing
    rw [Batch.after, if_neg delivered, if_neg removed, if_pos made, if_pos ⟨missing, .inr made.2⟩]
  · have same : fs.tree.get? l = none ∧ l <+: start ++ way ↔
        fs.tree.get? l = none ∧ r.OnWay (start ++ way) l := by
      constructor
      · rintro ⟨missing, above⟩
        exact ⟨missing, .inl above⟩
      · rintro ⟨missing, above | beyond⟩
        · exact ⟨missing, above⟩
        · by_contra other
          refine made ⟨?_, beyond⟩
          rw [furnished.get?, if_neg other, missing]
    rw [Batch.after, if_neg delivered, if_neg removed, if_neg made, furnished.get?]
    simp only [same]

include down fit room in
/-- Grouping files moves or copies each of them, and lists them in the order of the walk. -/
theorem run_files :
    ∃ after, Execution.run fs dir memory declared condition =
        (after, .ok (memory.store declared.name ⟨r.output, r.matched.map r.output.below⟩)) ∧
      r.Gathered (start ++ way) after.tree := by
  have clear : r.groupMode = .move → r.StaysClear (start ++ way) := fun _ =>
    r.staysClear proper files start way down room
  obtain ⟨fs₁, furnished, after, now, ran⟩ := r.exists_run proper start way down fit room clear
  let b := r.batch proper start way down fit room clear fs₁ furnished
  have counts : r.matched.filter b.Counts = r.matched := by
    rw [List.filter_eq_self]
    intro names h
    exact decide_eq_true fun _ other h' above => r.eq_of_prefix proper files other names h' h above
  have all : r.matched ⊆ b.entries := List.Subset.refl _
  refine ⟨after, counts ▸ ran, now.proper, ?_, ?_⟩
  · intro names h
    obtain ⟨content, found⟩ := r.exists_content proper files names h
    have still : fs₁.tree.get? (r.location ++ names) = some (.file content) := by
      rw [furnished.get?_of_contains _ ((r.mem_matched_iff names).mp h).2.1, found]
    refine ⟨content, found, ?_, ?_⟩
    · rw [now.get?]
      exact (b.after_of_delivers names (b.delivers_of_mem names h)).trans still
    · rw [now.get?]
      cases mode : r.groupMode with
      | move =>
        exact b.after_of_removes all _ (b.there names h) ⟨mode, names, h, List.prefix_refl _⟩
      | copy =>
        have kept : ¬ b.Removes r.matched (r.location ++ names) := by
          rintro ⟨moves, -⟩
          cases mode.symm.trans moves
        exact (b.after_of_contains all _ (b.there names h) kept).trans still
  · intro l noDestination noSource
    rw [now.get?]
    exact r.after_elsewhere proper files start way down fit room furnished l noDestination noSource

end
end FromDirectory

def onlyFiles : List Parameter := [⟨"type", "file", .zero⟩]

/-- The files are moved to a directory within the one that they come from. -/
def FromDirectory.shelf : FromDirectory shelf (.ofText "/") .empty
    (gather "docs" "docs/box/new" "move" onlyFiles) none where
  params := ⟨[("type", "file"), ("mode", "move"), ("path", "docs/box/new"),
    ("group_target", "docs")]⟩
  filter := { kind := some .file }
  rawTarget := "docs"
  rawPath := "docs/box/new"
  rawMode := "move"
  location := ["docs"]
  action := rfl
  merged := by decide +kernel
  filtered := by decide +kernel
  target := by decide
  path := by decide
  mode := by decide
  noResult := rfl
  noChain := rfl
  located := by decide +kernel
  isDirectory := by decide

theorem run_files_shelf :
    shelf.tree.IsProper ∧ FromDirectory.shelf.filter.kind = some .file ∧
      shelf.tree.LeadsDown FromDirectory.shelf.output ["docs"] ["box", "new"] ∧
      FromDirectory.shelf.DestinationsFit ∧
      FromDirectory.shelf.HasRoom ["docs", "box", "new"] ∧
      ∃ after, Execution.run shelf (.ofText "/") .empty
          (gather "docs" "docs/box/new" "move" onlyFiles) none =
          (after, .ok (Memory.empty.store "gather"
            ⟨⟨["", "docs", "box", "new"]⟩, [⟨["", "docs", "box", "new", "box", "note"]⟩,
              ⟨["", "docs", "box", "new", "note"]⟩]⟩)) ∧
        FromDirectory.shelf.Gathered ["docs", "box", "new"] after.tree := by
  have proper : shelf.tree.IsProper := by decide +kernel
  have roomy : ∀ m ∈ ["box", "new"].inits, shelf.tree.contains (["docs"] ++ m) = true →
      shelf.tree.isDirectory (["docs"] ++ m) = true := by decide +kernel
  have down : shelf.tree.LeadsDown FromDirectory.shelf.output ["docs"] ["box", "new"] :=
    ⟨.inr (by decide +kernel), ⟨["docs"], by decide +kernel, by decide +kernel⟩, by decide,
      by decide +kernel, fun m above => roomy m ((List.mem_inits m _).mpr above), by decide +kernel⟩
  have fit : FromDirectory.shelf.DestinationsFit := by decide +kernel
  have room : FromDirectory.shelf.HasRoom ["docs", "box", "new"] := by decide +kernel
  obtain ⟨after, ran, gathered⟩ := FromDirectory.shelf.run_files proper rfl _ _ down fit room
  have listed : FromDirectory.shelf.matched = [["box", "note"], ["note"]] := by decide +kernel
  rw [listed] at ran
  exact ⟨proper, rfl, down, fit, room, after, ran, gathered⟩

def barred : FileSystem where
  tree := .ofList [(["in"], .directory), (["out"], .file .empty)]
  clock := ⟨2024, 1, 1, 0, 0, 0⟩

def drawer : FileSystem where
  tree := .ofList [(["in"], .directory), (["in", "note"], .file .empty)]
  clock := ⟨2024, 1, 1, 0, 0, 0⟩

theorem run_files_barred :
    (barred.tree.IsProper ∧
      plan barred (.ofText "/") .empty (gather "in" "out" "move" onlyFiles) none =
        .ok ⟨.move, [], ⟨["", "in"]⟩, ⟨["", "out"]⟩⟩ ∧
      (Execution.run barred (.ofText "/") .empty (gather "in" "out" "move" onlyFiles) none).2 =
        .error (.files "gather" .makeOutput .entryExists)) ∧
    (drawer.tree.IsProper ∧
      plan drawer (.ofText "/") .empty (gather "in" "out/." "move" onlyFiles) none =
        .ok ⟨.move, [⟨["", "in", "note"]⟩], ⟨["", "in"]⟩, ⟨["", "out", "."]⟩⟩ ∧
      drawer.pathExists ⟨["", "out"]⟩ = false ∧
      (Execution.run drawer (.ofText "/") .empty (gather "in" "out/." "move" onlyFiles) none).2 =
        .error (.files "gather" .makeOutput .noEntry)) ∧
    (plan barred (.ofText "/") .empty (gather "in" "new/box" "move" onlyFiles) none =
        .ok ⟨.move, [], ⟨["", "in"]⟩, ⟨["", "new", "box"]⟩⟩ ∧
      barred.tree.get? ["new"] = none ∧
      (Execution.run barred (.ofText "/") .empty
        (gather "in" "new/box" "move" onlyFiles) none).1.tree.get? ["new"] = some .directory) := by
  refine ⟨⟨?_, ?_, ?_⟩, ⟨?_, ?_, ?_, ?_⟩, ?_, ?_, ?_⟩ <;> decide +kernel

end SimpleFiles.Group
