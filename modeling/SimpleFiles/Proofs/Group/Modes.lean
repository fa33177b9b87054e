import SimpleFiles.Proofs.Group.Files

/-! Moving and copying compared. A directory that is moved takes along all that lies below it,
one that is copied nothing; an entry that was taken along is left out of the result. -/
namespace SimpleFiles

theorem Filter.ofParameters_congr (p q : Parameters) (excluded : List String)
    (same : ∀ key, key ∉ excluded → p.find? key = q.find? key) :
    ofParameters p excluded = ofParameters q excluded := by
  have options : (fun key => if key ∈ excluded then none else p.find? key) =
      fun key => if key ∈ excluded then none else q.find? key := by
    funext key
    split
    · rfl
    · rename_i counted
      exact same key counted
  unfold ofParameters
  simp only [congrFun options]

namespace Group

open FileTree

namespace FromDirectory

variable {fs : FileSystem} {dir : Path} {memory : Memory} {declared : Instruction}
  {condition : Option Condition} (r : FromDirectory fs dir memory declared condition)

/-- The entries that lie below no other of them. -/
def topmost : List Location :=
  r.matched.filter fun names => ∀ other ∈ r.matched, other <+: names → other = names

def IsFlat : Prop := ∀ names ∈ r.matched, ∀ other ∈ r.matched, other <+: names → other = names

/-- Whatever lies below an entry is one itself or leads to one. -/
def IsFilled : Prop :=
  ∀ e ∈ fs.tree.under r.location, (∃ names ∈ r.matched, names <+: e.1) →
    ∃ other ∈ r.matched, e.1 <+: other

instance : Decidable r.IsFilled := inferInstanceAs (Decidable (∀ e ∈ fs.tree.under r.location, _ → _))

/-- What was at the names below the directory arrives at the names below the output. -/
def Arrives (names : Location) : Prop :=
  match r.groupMode with
  | .move => ∃ other ∈ r.matched, other <+: names
  | .copy => names ∈ r.matched

theorem arrives_iff (names : Location) :
    r.Arrives names ↔ (r.groupMode = .move ∧ ∃ other ∈ r.matched, other <+: names) ∨
      (r.groupMode = .copy ∧ ∃ other ∈ r.matched, other = names) := by
  unfold Arrives
  cases r.groupMode <;> simp

instance (names : Location) : Decidable (r.Arrives names) :=
  decidable_of_iff' _ (r.arrives_iff names)

/-- What is found at the names below the output directory: what arrives, and the directories that
lead to it. -/
def leaves (names : Location) (arrives : Prop) [Decidable arrives] : Option Node :=
  if arrives then fs.tree.get? (r.location ++ names)
  else if names = [] ∨ ∃ other ∈ r.matched, names <+: other then some .directory
  else none

/-- The entries that count as transferred. -/
def listed : List Location :=
  match r.groupMode with
  | .move => r.topmost
  | .copy => r.matched

section
variable (proper : fs.tree.IsProper) (start : Location) (way : List String)
  (down : fs.tree.LeadsDown r.output start way) (fit : r.DestinationsFit) (stay : r.PathsStay)
  (missing : fs.tree.get? (start ++ way) = none) (outside : ¬ r.location <+: start ++ way)

include proper missing outside in
theorem not_prefix_output (names rest : Location)
    (there : fs.tree.contains (r.location ++ names) = true) :
    ¬ r.location ++ names <+: start ++ way ++ rest := by
  intro within
  rcases List.prefix_or_prefix_of_prefix within (List.prefix_append _ rest) with above | ⟨more, same⟩
  · exact outside ((List.prefix_append _ names).trans above)
  · rw [contains, ← same, proper.closed.get?_of_missing _ more missing] at there
    cases there

include proper down missing in
theorem room_of_missing : r.HasRoom (start ++ way) := by
  refine ⟨fun names _ => proper.closed.get?_of_missing _ names missing, ?_⟩
  intro names _ l within there
  rcases List.prefix_or_prefix_of_prefix within (List.prefix_append _ names) with above | ⟨rest, rfl⟩
  · exact down.isDirectory_above proper.closed l above there
  · rw [contains, proper.closed.get?_of_missing _ rest missing] at there
    cases there

include proper missing outside stay in
theorem staysClear_of_missing : r.StaysClear (start ++ way) :=
  ⟨fun names h other _ => r.not_prefix_output proper start way missing outside names other
    ((r.mem_matched_iff names).mp h).2.1, stay⟩

include proper down outside in
theorem pathsStay_of_no_parent (rootDown : ".." ∉ r.root.segments)
    (outDown : ".." ∉ r.output.segments) : r.PathsStay := by
  obtain ⟨u, -, outReached, -⟩ := fs.exists_furnished r.output proper start way down
  have folderDown : ".." ∉ r.output.folder := by
    rcases r.output.segments_eq_folder with same | trailing
    · rwa [← same]
    · rw [trailing] at outDown
      exact fun listed => outDown (List.mem_append_left _ listed)
  intro names h
  refine ⟨?_, ?_⟩
  · intro onWay
    have above := fs.tree.prefix_of_mem_stations [] _ _ _ rootDown (r.root_walked proper)
      onWay
    have short := above.length_le
    have long := List.length_pos_of_ne_nil ((r.mem_matched_iff names).mp h).1
    rw [List.length_append] at short
    omega
  · intro onWay
    have above := u.prefix_of_mem_stations [] _ _ _ folderDown outReached
      ((r.output.mem_stations_folder _).mpr onWay)
    exact outside ((List.prefix_append _ names).trans above)

section
variable (room : r.HasRoom (start ++ way))
  (clear : r.groupMode = .move → r.StaysClear (start ++ way)) {fs₁ : FileSystem}
  (furnished : fs.tree.Furnishes (start ++ way) fs₁.tree)

theorem filter_counts :
    r.matched.filter (r.batch proper start way down fit room clear fs₁ furnished).Counts =
      r.listed := by
  let b := r.batch proper start way down fit room clear fs₁ furnished
  unfold listed topmost
  cases mode : r.groupMode with
  | move =>
    apply List.filter_congr
    intro names _
    have counts : b.Counts names ↔ ∀ other ∈ r.matched, other <+: names → other = names :=
      ⟨fun counts => counts mode, fun alone _ => alone⟩
    exact decide_eq_decide.mpr counts
  | copy =>
    rw [List.filter_eq_self]
    intro names _
    exact decide_eq_true fun moves => by cases mode.symm.trans moves

theorem delivers_iff_arrives (names : Location) :
    (r.batch proper start way down fit room clear fs₁ furnished).Delivers r.matched
        (start ++ way ++ names) ↔ r.Arrives names := by
  show (match r.groupMode with
    | .move => ∃ other ∈ r.matched, start ++ way ++ other <+: start ++ way ++ names
    | .copy => ∃ other ∈ r.matched, start ++ way ++ other = start ++ way ++ names) ↔ _
  unfold Arrives
  cases r.groupMode with
  | move => simp only [List.prefix_append_right_inj]
  | copy => simp only [List.append_cancel_left_eq, exists_eq_right]

include proper down missing furnished in
theorem get?_output (names : Location) :
    fs₁.tree.get? (start ++ way ++ names) = if names = [] then some .directory else none := by
  by_cases root : names = []
  · rw [if_pos root, root, List.append_nil, ← isDirectory_iff]
    exact furnished.isDirectory_self (down.roomy way (List.prefix_refl _))
  · rw [if_neg root, furnished.get?_below names root]
    exact proper.closed.get?_of_missing _ names missing

include missing outside in
theorem after_output (names : Location) :
    (r.batch proper start way down fit room clear fs₁ furnished).after r.matched
        (start ++ way ++ names) = r.leaves names (r.Arrives names) := by
  let b := r.batch proper start way down fit room clear fs₁ furnished
  have arrives := r.delivers_iff_arrives proper start way down fit room clear furnished names
  by_cases arrived : r.Arrives names
  · have source : fs₁.tree.get? (r.location ++ names) = fs.tree.get? (r.location ++ names) := by
      rw [furnished.get?, if_neg fun made => outside ((List.prefix_append _ names).trans made.2)]
    rw [leaves, if_pos arrived]
    exact (b.after_of_delivers names (arrives.mpr arrived)).trans source
  have notRemoved : ¬ b.Removes r.matched (start ++ way ++ names) := by
    rintro ⟨-, other, h, above⟩
    exact r.not_prefix_output proper start way missing outside other names
      ((r.mem_matched_iff other).mp h).2.1 above
  have empty := r.get?_output proper start way down missing furnished names
  have made : b.Makes r.matched (start ++ way ++ names) ↔
      names ≠ [] ∧ ∃ other ∈ r.matched, names <+: other := by
    unfold Batch.Makes
    rw [empty]
    refine and_congr (by simp) (exists_congr fun other => and_congr_right fun _ => ?_)
    exact List.prefix_append_right_inj _
  rw [leaves, if_neg arrived, Batch.after, if_neg (mt arrives.mp arrived), if_neg notRemoved, empty]
  by_cases root : names = []
  · rw [if_neg fun making => (made.mp making).1 root]
    simp [root]
  · refine (if_congr made rfl rfl).trans ?_
    simp [root]

end

include proper down fit stay missing outside in
theorem exists_after :
    ∃ after, Execution.run fs dir memory declared condition =
        (after, .ok (memory.store declared.name ⟨r.output, r.listed.map r.output.below⟩)) ∧
      ∀ names, after.tree.get? (start ++ way ++ names) = r.leaves names (r.Arrives names) := by
  have room := r.room_of_missing proper start way down missing
  have clear : r.groupMode = .move → r.StaysClear (start ++ way) := fun _ =>
    r.staysClear_of_missing proper start way stay missing outside
  obtain ⟨fs₁, furnished, after, now, ran⟩ := r.exists_run proper start way down fit room clear
  rw [r.filter_counts] at ran
  refine ⟨after, ran, ?_⟩
  intro names
  rw [now.get?, r.after_output proper start way down fit missing outside]

end

theorem topmost_eq_iff_isFlat : r.topmost = r.matched ↔ r.IsFlat := by
  unfold topmost IsFlat
  rw [List.filter_eq_self]
  simp only [decide_eq_true_eq]

theorem get?_above (proper : fs.tree.IsProper) (names other : Location) (h : other ∈ r.matched)
    (above : names <+: other) (differ : names ≠ other) :
    fs.tree.get? (r.location ++ names) = some .directory := by
  obtain ⟨rest, rfl⟩ := above
  obtain ⟨s, more, rfl⟩ := List.exists_cons_of_ne_nil fun none : rest = [] => differ (by simp [none])
  rw [← isDirectory_iff]
  apply fs.tree.isDirectory_of_contains proper.closed _ s
  refine fs.tree.contains_above proper.closed _ _ ((r.mem_matched_iff _).mp h).2.1 ?_
  simp

theorem leaves_eq_iff_isFilled (proper : fs.tree.IsProper) :
    (∀ names, r.leaves names (∃ other ∈ r.matched, other <+: names) =
      r.leaves names (names ∈ r.matched)) ↔ r.IsFilled := by
  unfold leaves
  constructor
  · rintro same ⟨names, n⟩ inside moved
    obtain ⟨named, there⟩ := (mem_under_iff fs.tree r.location names n).mp inside
    by_contra nothing
    have unlisted : names ∉ r.matched := fun listed => nothing ⟨_, listed, List.prefix_refl _⟩
    have lost := same names
    rw [if_pos moved, if_neg unlisted, if_neg (by simp [named, nothing]),
      (fs.tree.get?_eq_some_iff _ (by simp [named]) n).mpr there] at lost
    cases lost
  · intro filled names
    by_cases listed : names ∈ r.matched
    · rw [if_pos ⟨names, listed, List.prefix_refl _⟩, if_pos listed]
    rw [if_neg listed]
    split
    · rename_i moved
      have named : names ≠ [] := by
        obtain ⟨other, h, above⟩ := moved
        rintro rfl
        exact ((r.mem_matched_iff other).mp h).1 (List.prefix_nil.mp above)
      -- an entry that is only moved, as it lies below a matched one, leads to another
      cases found : fs.tree.get? (r.location ++ names) with
      | some n =>
        have there := (fs.tree.get?_eq_some_iff _ (by simp [named]) n).mp found
        obtain ⟨last, h, above⟩ := filled (names, n)
          ((mem_under_iff fs.tree r.location names n).mpr ⟨named, there⟩) moved
        have differ : names ≠ last := fun same => listed (same ▸ h)
        rw [← found, r.get?_above proper names last h above differ, if_pos (.inr ⟨last, h, above⟩)]
      | none =>
        rw [if_neg]
        rintro (none | ⟨last, h, above⟩)
        · exact named none
        · rw [r.get?_above proper names last h above fun same => listed (same ▸ h)] at found
          cases found
    · rfl

section
variable {declared' : Instruction} {condition' : Option Condition}
  (moving : FromDirectory fs dir memory declared condition)
  (copying : FromDirectory fs dir memory declared' condition')

/-- Of two groups that read the same but for the mode, one moves and the other copies. -/
structure SameButMode : Prop where
  moves : moving.groupMode = .move
  copies : copying.groupMode = .copy
  params : ∀ key, key ≠ "mode" → moving.params.find? key = copying.params.find? key

namespace SameButMode

variable {moving copying} (same : SameButMode moving copying)

include same

theorem filter : moving.filter = copying.filter := by
  have options : ∀ key, key ∉ ownKeys → moving.params.find? key = copying.params.find? key := by
    intro key counted
    apply same.params
    rintro rfl
    exact counted (by decide)
  have read := moving.filtered
  rw [Filter.ofParameters_congr _ _ ownKeys options, copying.filtered] at read
  exact (Except.ok.inj read).symm

theorem root : moving.root = copying.root := by
  have target := moving.target
  rw [same.params _ (by decide), copying.target] at target
  rw [FromDirectory.root, FromDirectory.root, Option.some.inj target]

theorem output : moving.output = copying.output := by
  have path := moving.path
  rw [same.params _ (by decide), copying.path] at path
  rw [FromDirectory.output, FromDirectory.output, Option.some.inj path]

theorem location : moving.location = copying.location := by
  have located : Place.locate fs.tree true moving.root = .ok moving.location := moving.located
  rw [same.root] at located
  exact Except.ok.inj (located.symm.trans copying.located)

theorem matched : moving.matched = copying.matched := by
  rw [FromDirectory.matched, FromDirectory.matched, same.filter, same.root, same.location]

theorem leaves (names : Location) (arrives : Prop) [Decidable arrives] :
    moving.leaves names arrives = copying.leaves names arrives := by
  simp only [FromDirectory.leaves, same.location, same.matched]

end SameButMode

/-- Moving and copying to an output directory of its own, which does not lie below the target.
Both bring every entry to its destination. Copying lists them all and moving the topmost ones:
the same if no entry lies below another. They leave the same in the output directory if whatever
lies below an entry is one itself or leads to one. -/
theorem run_modes (same : SameButMode moving copying) (proper : fs.tree.IsProper)
    (start : Location) (way : List String) (down : fs.tree.LeadsDown moving.output start way)
    (fit : moving.DestinationsFit) (stay : moving.PathsStay)
    (missing : fs.tree.get? (start ++ way) = none) (outside : ¬ moving.location <+: start ++ way) :
    ∃ moved copied,
      Execution.run fs dir memory declared condition =
        (moved, .ok (memory.store declared.name
          ⟨moving.output, moving.topmost.map moving.output.below⟩)) ∧
      Execution.run fs dir memory declared' condition' =
        (copied, .ok (memory.store declared'.name
          ⟨moving.output, moving.matched.map moving.output.below⟩)) ∧
      (∀ names ∈ moving.matched, ∃ n, fs.tree.get? (moving.location ++ names) = some n ∧
        moved.tree.get? (start ++ way ++ names) = some n ∧
        copied.tree.get? (start ++ way ++ names) = some n) ∧
      (moving.topmost.map moving.output.below = moving.matched.map moving.output.below ↔
        moving.IsFlat) ∧
      ((∀ names, moved.tree.get? (start ++ way ++ names) =
          copied.tree.get? (start ++ way ++ names)) ↔ moving.IsFilled) := by
  have stay' : copying.PathsStay := by
    intro names h
    rw [← same.location, ← same.root, ← same.output]
    exact stay names (same.matched ▸ h)
  have fit' : copying.DestinationsFit := by
    intro names h
    rw [← same.output]
    exact fit names (same.matched ▸ h)
  obtain ⟨moved, ran, left⟩ := moving.exists_after proper start way down fit stay missing outside
  obtain ⟨copied, ran', left'⟩ := copying.exists_after proper start way (same.output ▸ down) fit'
    stay' missing (same.location ▸ outside)
  rw [← same.output] at ran'
  simp only [listed, same.moves] at ran
  simp only [listed, same.copies, ← same.matched] at ran'
  simp only [Arrives, same.moves] at left
  simp only [Arrives, same.copies, ← same.matched, ← same.leaves] at left'
  refine ⟨moved, copied, ran, ran', ?_, ?_, ?_⟩
  · intro names h
    obtain ⟨n, found⟩ := (fs.tree.contains_iff _).mp ((moving.mem_matched_iff names).mp h).2.1
    rw [left, FromDirectory.leaves, if_pos ⟨names, h, List.prefix_refl _⟩, left',
      FromDirectory.leaves, if_pos h, found]
    exact ⟨n, rfl, rfl, rfl⟩
  · rw [← moving.topmost_eq_iff_isFlat]
    constructor
    · intro listed
      have long := congrArg List.length listed
      rw [List.length_map, List.length_map] at long
      exact List.filter_sublist.eq_of_length long
    · exact fun all => by rw [all]
  · simp only [left, left']
    exact moving.leaves_eq_iff_isFilled proper

end
end FromDirectory

def cabinet : FileSystem where
  tree := .ofList [(["in"], .directory), (["in", "box"], .directory),
    (["in", "box", "note"], .file .empty), (["in", "note"], .file .empty)]
  clock := ⟨2024, 1, 1, 0, 0, 0⟩

def modeWord : GroupMode → String
  | .move => "move"
  | .copy => "copy"

def FromDirectory.cabinet (mode : GroupMode) : FromDirectory cabinet (.ofText "/") .empty
    (gather "in" "out" (modeWord mode) []) none where
  params := ⟨[("mode", modeWord mode), ("path", "out"), ("group_target", "in")]⟩
  filter := {}
  rawTarget := "in"
  rawPath := "out"
  rawMode := modeWord mode
  location := ["in"]
  action := rfl
  merged := by cases mode <;> decide +kernel
  filtered := by cases mode <;> decide +kernel
  target := by cases mode <;> decide
  path := by cases mode <;> decide
  mode := by cases mode <;> decide
  noResult := rfl
  noChain := rfl
  located := by decide +kernel
  isDirectory := by decide

theorem run_modes_cabinet :
    FromDirectory.SameButMode (.cabinet .move) (.cabinet .copy) ∧ cabinet.tree.IsProper ∧
      cabinet.tree.LeadsDown (FromDirectory.cabinet .move).output [] ["out"] ∧
      (FromDirectory.cabinet .move).DestinationsFit ∧ (FromDirectory.cabinet .move).PathsStay ∧
      cabinet.tree.get? ["out"] = none ∧ ¬ ["in"] <+: ["out"] ∧
      ∃ moved copied,
        Execution.run cabinet (.ofText "/") .empty (gather "in" "out" "move" []) none =
          (moved, .ok (Memory.empty.store "gather" ⟨⟨["", "out"]⟩,
            [⟨["", "out", "box"]⟩, ⟨["", "out", "note"]⟩]⟩)) ∧
        Execution.run cabinet (.ofText "/") .empty (gather "in" "out" "copy" []) none =
          (copied, .ok (Memory.empty.store "gather" ⟨⟨["", "out"]⟩,
            [⟨["", "out", "box"]⟩, ⟨["", "out", "box", "note"]⟩, ⟨["", "out", "note"]⟩]⟩)) ∧
        ∀ names, moved.tree.get? (["out"] ++ names) = copied.tree.get? (["out"] ++ names) := by
  have same : FromDirectory.SameButMode (.cabinet .move) (.cabinet .copy) := by
    refine ⟨by decide, by decide, ?_⟩
    intro key other
    have missed : (key == "mode") = false := by simpa using other
    simp only [FromDirectory.cabinet, NameTable.find?, List.lookup_cons, missed]
  have proper : cabinet.tree.IsProper := by decide +kernel
  have roomy : ∀ m ∈ ["out"].inits, cabinet.tree.contains ([] ++ m) = true →
      cabinet.tree.isDirectory ([] ++ m) = true := by decide +kernel
  have down : cabinet.tree.LeadsDown (FromDirectory.cabinet .move).output [] ["out"] :=
    ⟨.inr (by decide +kernel), ⟨[], by decide +kernel, by decide +kernel⟩, by decide,
      by decide +kernel, fun m above => roomy m ((List.mem_inits m _).mpr above), by decide +kernel⟩
  have fit : (FromDirectory.cabinet .move).DestinationsFit := by decide +kernel
  have missing : cabinet.tree.get? ["out"] = none := by decide +kernel
  have outside : ¬ ["in"] <+: ["out"] := by decide
  have stay : (FromDirectory.cabinet .move).PathsStay :=
    (FromDirectory.cabinet .move).pathsStay_of_no_parent proper [] ["out"] down outside
      (by decide +kernel) (by decide +kernel)
  have filled : (FromDirectory.cabinet .move).IsFilled := by decide +kernel
  have topmost : (FromDirectory.cabinet .move).topmost = [["box"], ["note"]] := by decide +kernel
  have matched : (FromDirectory.cabinet .move).matched = [["box"], ["box", "note"], ["note"]] := by
    decide +kernel
  obtain ⟨moved, copied, ran, ran', -, -, left⟩ :=
    FromDirectory.run_modes _ _ same proper [] ["out"] down fit stay missing outside
  rw [topmost] at ran
  rw [matched] at ran'
  exact ⟨same, proper, down, fit, stay, missing, outside, moved, copied, ran, ran',
    left.mpr filled⟩

theorem run_modes_differ :
    ((Execution.run cabinet (.ofText "/") .empty (gather "in" "out" "move" []) none).2 =
        .ok (Memory.empty.store "gather" ⟨⟨["", "out"]⟩,
          [⟨["", "out", "box"]⟩, ⟨["", "out", "note"]⟩]⟩) ∧
      (Execution.run cabinet (.ofText "/") .empty (gather "in" "out" "copy" []) none).2 =
        .ok (Memory.empty.store "gather" ⟨⟨["", "out"]⟩,
          [⟨["", "out", "box"]⟩, ⟨["", "out", "box", "note"]⟩, ⟨["", "out", "note"]⟩]⟩)) ∧
    ((Execution.run cabinet (.ofText "/") .empty
        (gather "in" "out" "move" [⟨"contains", "box", .zero⟩]) none).1.tree.get?
          ["out", "box", "note"] = some (.file .empty) ∧
      (Execution.run cabinet (.ofText "/") .empty
        (gather "in" "out" "copy" [⟨"contains", "box", .zero⟩]) none).1.tree.get?
          ["out", "box", "note"] = none) ∧
    (barred.pathExists ⟨["", "out", "new"]⟩ = false ∧
      (Execution.run barred (.ofText "/") .empty (gather "in" "out/new" "move" []) none).2 =
        .error (.files "gather" .makeOutput .notDirectory)) ∧
    (drawer.pathExists ⟨["", "out", "."]⟩ = false ∧
      (Execution.run drawer (.ofText "/") .empty (gather "in" "out/." "move" []) none).2 =
        .error (.files "gather" .makeOutput .noEntry)) ∧
    (drawer.pathExists ⟨["", "out", "note", ".."]⟩ = false ∧
      plan drawer (.ofText "/") .empty (gather "in" "out/note/.." "copy" []) none =
        .ok ⟨.copy, [⟨["", "in", "note"]⟩], ⟨["", "in"]⟩, ⟨["", "out", "note", ".."]⟩⟩ ∧
      (Execution.run drawer (.ofText "/") .empty (gather "in" "out/note/.." "copy" []) none).2 =
        .ok (Memory.empty.store "gather" ⟨⟨["", "out", "note", ".."]⟩, []⟩)) ∧
    (plan cabinet (.ofText "/") .empty (gather "in/box/.." "out" "move" []) none =
        .ok ⟨.move, [⟨["", "in", "box", "..", "box"]⟩, ⟨["", "in", "box", "..", "box", "note"]⟩,
          ⟨["", "in", "box", "..", "note"]⟩], ⟨["", "in", "box", ".."]⟩, ⟨["", "out"]⟩⟩ ∧
      (Execution.run cabinet (.ofText "/") .empty
        (gather "in/box/.." "out" "move" []) none).1.tree.get? ["out", "note"] = none) := by
  refine ⟨⟨?_, ?_⟩, ⟨?_, ?_⟩, ⟨?_, ?_⟩, ⟨?_, ?_⟩, ⟨?_, ?_, ?_⟩, ?_, ?_⟩ <;> decide +kernel

end Group
end SimpleFiles
