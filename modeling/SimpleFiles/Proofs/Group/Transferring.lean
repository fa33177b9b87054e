import SimpleFiles.Proofs.FileSystem.Delivery
import SimpleFiles.Proofs.Group.Batch

/-! Transferring the entries of a batch one after the other. -/
namespace SimpleFiles.Group

open FileTree

theorem destination_below (root output : Path) (names : List String) (filled : root.text ≠ "")
    (hn : names ≠ []) (named : ∀ s ∈ names, IsEntryName s) :
    destination (root.below names) root output = output.below names := by
  obtain ⟨init, last, rfl⟩ := (List.eq_nil_or_concat' names).resolve_left hn
  have visible := Path.text_concat_ne_empty init last (named last (by simp))
  unfold destination
  rw [Path.relativeTo?_below root _ filled hn named]
  simp only [if_neg visible]
  rw [Path.below, if_neg hn]

namespace Batch

variable {t : FileTree} (b : Batch t)

/-- The tree when some entries are done. -/
structure At (done : List Location) (u : FileTree) : Prop where
  proper : u.IsProper
  get? : ∀ l, u.get? l = b.after done l

section
variable {b} {done : List Location} {u : FileTree} (now : b.At done u) (hdone : done ⊆ b.entries)

include now hdone in
theorem At.rootReached : u.walkTo? [] b.root.folder = some b.base := by
  apply t.walkTo?_of_kept u b.proper.closed [] b.base b.root.folder rfl b.rootReached
  intro m hm there
  rw [now.get?]
  exact b.after_of_station hdone _ (fun moves names h => (b.clear moves names h).1) m hm there

include now hdone in
theorem At.outReached : u.walkTo? [] b.output.folder = some b.out := by
  apply t.walkTo?_of_kept u b.proper.closed [] b.out b.output.folder rfl b.outReached
  intro m hm there
  rw [now.get?]
  exact b.after_of_station hdone _ (fun moves names h => (b.clear moves names h).2) m hm there

include now hdone in
theorem At.locate_iff (names : Location) (h : names ∈ b.entries) (l : Location) :
    Place.locate u true (b.root.below names) = .ok l ↔
      l = b.base ++ names ∧ u.contains (b.base ++ names) = true := by
  have reached := now.rootReached hdone
  constructor
  · intro located
    obtain ⟨-, walked⟩ := (Place.locate_eq_ok_iff u now.proper.noLinks true _ l).mp located
    rw [b.below_root names h, walkTo?_append, reached, Option.bind_some] at walked
    have base := u.contains_of_walkTo? now.proper.closed [] b.base b.root.folder rfl reached b.base
      (u.mem_stations_of_walkTo? _ _ _ reached)
    obtain ⟨rfl, there⟩ := u.eq_append_of_walkTo? _ _ names
      (fun s hs => (b.legal names h s hs).1) base walked
    exact ⟨rfl, there⟩
  · rintro ⟨rfl, there⟩
    exact Place.locate_below now.proper b.root b.base names reached (b.named names h)
      (b.readable names h) there

end

section
variable {b} {done : List Location} {u : FileTree} (now : b.At done u) (hdone : done ⊆ b.entries)
  {init : Location} {name : String} (next : b.IsNext done (init ++ [name]))

include now hdone next

theorem At.contains_next : u.contains (b.base ++ (init ++ [name])) = true := by
  rw [contains, now.get?, b.after_source hdone next]
  exact b.there _ next.listed

theorem At.leadsDown :
    u.LeadsDown (b.output.below (init ++ [name])) b.out (init ++ [name]) := by
  have legal := b.legal _ next.listed
  have named : ∀ s ∈ init ++ [name], IsEntryName s := fun s hs => (legal s hs).1
  refine ⟨.inr (b.writable _ next.listed), ⟨Path.steps b.output.folder, ?_, ?_⟩, ?_, legal, ?_, ?_⟩
  · rw [b.below_output _ next.listed, Path.steps_append, Path.steps_of_named _ named]
  · exact u.walkTo?_steps [] _ _ (now.outReached hdone)
  · have found := (t.isDirectory_iff b.out).mp b.outDirectory
    have onWay : b.out <+: b.out ++ (init ++ [name]) := List.prefix_append _ _
    rw [isDirectory_iff, now.get?, b.after_of_contains hdone b.out
      ((t.contains_iff _).mpr ⟨_, found⟩) (b.not_removes_of_prefix hdone _ next.listed _ onWay),
      found]
  · intro m hm there
    obtain ⟨n, found⟩ := (u.contains_iff _).mp there
    rw [isDirectory_iff, found, b.after_on_way hdone next m hm n (now.get? _ ▸ found)]
  · intro dot
    rw [b.below_output _ next.listed, ← List.append_assoc] at dot
    have entryName := named name (by simp)
    simp [Path.EndsInDot, entryName.filled, entryName.notCurrent] at dot

end

section
variable {b} {done : List Location} {fs : FileSystem} (now : b.At done fs.tree)
  (hdone : done ⊆ b.entries)

include now hdone in
theorem At.pathExists_eq (names : Location) (h : names ∈ b.entries) :
    fs.pathExists (b.root.below names) = fs.tree.contains (b.base ++ names) := by
  rw [Bool.eq_iff_iff]
  constructor
  · intro found
    obtain ⟨l, located⟩ := fs.exists_locate_of_pathExists _ found
    exact ((now.locate_iff hdone names h l).mp located).2
  · intro there
    exact fs.pathExists_of_locate _ _ ((now.locate_iff hdone names h _).mpr ⟨rfl, there⟩)

variable {init : Location} {name : String} (next : b.IsNext done (init ++ [name]))

include now hdone next

theorem At.makeParent :
    ∃ fs₁, Group.makeParent fs (b.output.below (init ++ [name])) = (fs₁, true) ∧
      fs.tree.Furnishes (b.out ++ init) fs₁.tree := by
  have down := now.leadsDown hdone next
  have inits : ∀ s ∈ init, IsEntryName s := fun s hs => (b.legal _ next.listed s (by simp [hs])).1
  have steps : Path.steps (b.output.folder ++ init) = Path.steps b.output.folder ++ init := by
    rw [Path.steps_append, Path.steps_of_named init inits]
  have leads := fs.tree.walkTo?_steps [] b.out _ (now.outReached hdone)
  obtain ⟨parent, found, downParent⟩ := down.parent init name (b.output.folder ++ init) [] rfl
    (by rw [b.below_output _ next.listed, List.append_assoc]) (by simp) _ steps leads
    (b.writable _ next.listed)
  obtain ⟨fs₁, made, furnished⟩ := fs.createAll_of_leadsDown parent now.proper b.out init downParent
  refine ⟨fs₁, ?_, furnished⟩
  unfold Group.makeParent
  simp only [found, made]

end

/-- The next entry is in its place, and the directory that is to hold it is made. -/
structure Ready (b : Batch t) (done : List Location) (init : Location) (name : String)
    (fs : FileSystem) : Prop where
  proper : fs.tree.IsProper
  get? : ∀ l, fs.tree.get? l =
    if b.after done l = none ∧ l <+: b.out ++ init then some .directory else b.after done l
  rootReached : fs.tree.walkTo? [] b.root.folder = some b.base
  outReached : fs.tree.walkTo? [] b.output.folder = some b.out
  inDirectory : fs.tree.isDirectory (b.out ++ init) = true

section
variable {b} {done : List Location} {fs : FileSystem} {init : Location} {name : String}
  (hdone : done ⊆ b.entries) (next : b.IsNext done (init ++ [name]))

theorem At.ready (now : b.At done fs.tree) (hdone : done ⊆ b.entries)
    (next : b.IsNext done (init ++ [name])) :
    ∃ fs₁, Group.makeParent fs (b.output.below (init ++ [name])) = (fs₁, true) ∧
      b.Ready done init name fs₁ := by
  obtain ⟨fs₁, made, furnished⟩ := now.makeParent hdone next
  have down := now.leadsDown hdone next
  have closed := now.proper.closed
  refine ⟨fs₁, made, furnished.proper, ?_, furnished.walkTo? closed [] _ _ rfl (now.rootReached hdone),
    furnished.walkTo? closed [] _ _ rfl (now.outReached hdone),
    furnished.isDirectory_self (down.roomy init (List.prefix_append _ _))⟩
  intro l
  rw [furnished.get?, now.get?]

variable (ready : b.Ready done init name fs)

include ready in
theorem Ready.get?_of_some (l : Location) (n : Node) (h : b.after done l = some n) :
    fs.tree.get? l = some n := by
  rw [ready.get?, h]
  simp

include hdone next ready

theorem Ready.leadsToFree :
    FileSystem.LeadsToFree fs.tree (b.output.folder ++ init) name (b.out ++ init) := by
  have legal := b.legal _ next.listed
  have asked := b.writable _ next.listed
  rw [b.below_output _ next.listed, ← List.append_assoc] at asked
  have there := (fs.tree.isDirectory_iff _).mp ready.inDirectory
  refine ⟨asked, ?_, ready.inDirectory, legal name (by simp), ?_⟩
  · rw [walkTo?_append, ready.outReached, Option.bind_some]
    exact fs.tree.walkTo?_names b.out init (fun s hs => legal s (by simp [hs])) ready.proper.closed
      ((fs.tree.contains_iff _).mpr ⟨_, there⟩)
  · have longer : ¬ b.out ++ init ++ [name] <+: b.out ++ init := by
      intro within
      have long := within.length_le
      rw [List.length_append, List.length_singleton] at long
      omega
    rw [ready.get?, if_neg fun made => longer made.2, List.append_assoc,
      b.after_destination hdone next]

theorem Ready.get?_source :
    fs.tree.get? (b.base ++ (init ++ [name])) = t.get? (b.base ++ (init ++ [name])) := by
  obtain ⟨n, hn⟩ := (t.contains_iff _).mp (b.there _ next.listed)
  rw [hn]
  apply ready.get?_of_some
  rw [b.after_source hdone next, hn]

theorem Ready.contains_source : fs.tree.contains (b.base ++ (init ++ [name])) = true := by
  rw [contains, ready.get?_source hdone next]
  exact b.there _ next.listed

theorem Ready.sourceParent :
    fs.tree.walkTo? [] (b.root.folder ++ init) = some (b.base ++ init) := by
  have legal := b.legal _ next.listed
  have there := ready.contains_source hdone next
  rw [walkTo?_append, ready.rootReached, Option.bind_some]
  refine fs.tree.walkTo?_names b.base init (fun s hs => legal s (by simp [hs])) ready.proper.closed
    (fs.tree.contains_above ready.proper.closed _ _ there ?_)
  exact (List.prefix_append_right_inj _).mpr (List.prefix_append _ _)

theorem Ready.moveEntry (moves : b.mode = .move) :
    ∃ fs', Group.moveEntry fs (b.root.below (init ++ [name])) (b.output.below (init ++ [name])) =
        (fs', true) ∧ b.At (done ++ [init ++ [name]]) fs'.tree := by
  have asked := b.readable _ next.listed
  have there := ready.contains_source hdone next
  have outside := b.apart moves _ next.listed _ next.listed
  rw [b.below_root _ next.listed, ← List.append_assoc] at asked
  rw [← List.append_assoc] at there
  rw [← List.append_assoc, ← List.append_assoc] at outside
  obtain ⟨fs', renamed, proper, get?⟩ := FileSystem.rename_to_free_place ready.proper
    (ready.leadsToFree hdone next) (b.root.folder ++ init) name (b.base ++ init) asked
    (ready.sourceParent hdone next) there outside
  refine ⟨fs', ?_, proper, ?_⟩
  · unfold Group.moveEntry
    rw [b.below_root _ next.listed, b.below_output _ next.listed, ← List.append_assoc,
      ← List.append_assoc]
    simp only [renamed]
  · intro l
    rw [get?, List.append_assoc b.out, List.append_assoc b.base]
    split
    · rename_i within
      obtain ⟨rest, rfl⟩ := within
      have delivered : b.Delivers (done ++ [init ++ [name]])
          (b.out ++ (init ++ [name] ++ rest)) := by
        unfold Delivers
        rw [moves, ← List.append_assoc]
        exact ⟨init ++ [name], by simp, List.prefix_append _ _⟩
      have found := b.after_of_delivers _ delivered
      rw [← List.append_assoc b.out, ← List.append_assoc b.base] at found
      rw [found, List.drop_left, ready.get?, if_neg,
        b.after_below_source hdone next moves rest]
      rintro ⟨-, above⟩
      refine b.apart moves _ next.listed _ next.listed ?_
      exact ((List.prefix_append _ rest).trans above).trans (by simp)
    · rename_i notWithin
      split
      · rename_i within
        obtain ⟨rest, rfl⟩ := within
        rw [b.after_append_of_removed hdone moves next rest]
      · rename_i notBelow
        rw [b.after_append hdone init name next l, ready.get?]
        · unfold Delivers
          rw [moves]
          rintro ⟨names, listed, above⟩
          exact notWithin (List.mem_singleton.mp listed ▸ above)
        · rintro ⟨-, names, listed, above⟩
          exact notBelow (List.mem_singleton.mp listed ▸ above)

theorem Ready.locate_source :
    Place.locate fs.tree true (b.root.below (init ++ [name])) =
      .ok (b.base ++ (init ++ [name])) :=
  Place.locate_below ready.proper b.root b.base _ ready.rootReached (by simp)
    (b.readable _ next.listed) (ready.contains_source hdone next)

theorem Ready.at_of_put (copies : b.mode = .copy) (u : FileTree) (proper : u.IsProper)
    (put : ∀ l, u.get? l = if l = b.out ++ (init ++ [name]) then t.get? (b.base ++ (init ++ [name]))
      else fs.tree.get? l) : b.At (done ++ [init ++ [name]]) u := by
  refine ⟨proper, ?_⟩
  intro l
  rw [put]
  split
  · rename_i here
    have listed : init ++ [name] ∈ done ++ [init ++ [name]] := by simp
    rw [here, b.after_of_delivers _ (b.delivers_of_mem _ listed)]
  · rename_i elsewhere
    rw [b.after_append hdone init name next l, ready.get?]
    · unfold Delivers
      rw [copies]
      rintro ⟨names, listed, same⟩
      exact elsewhere (List.mem_singleton.mp listed ▸ same.symm)
    · rintro ⟨moves, -⟩
      rw [copies] at moves
      cases moves

theorem Ready.copyEntry (copies : b.mode = .copy) :
    ∃ fs', Group.copyEntry fs (b.root.below (init ++ [name])) (b.output.below (init ++ [name])) =
        (fs', true) ∧ b.At (done ++ [init ++ [name]]) fs'.tree := by
  have place := ready.leadsToFree hdone next
  have located := ready.locate_source hdone next
  have source := ready.get?_source hdone next
  have target : b.output.below (init ++ [name]) = ⟨b.output.folder ++ init ++ [name]⟩ := by
    rw [b.below_output _ next.listed, List.append_assoc]
  obtain ⟨n, found⟩ := (t.contains_iff _).mp (b.there _ next.listed)
  rw [found] at source
  unfold Group.copyEntry
  rw [fs.isDirectory_of_locate _ _ located, FileTree.isDirectory, source, target]
  cases n with
  | link target => exact absurd source (ready.proper.noLinks.get?_ne_link _ target)
  | directory =>
    obtain ⟨fs', made, furnished⟩ := fs.createAll_of_leadsDown _ ready.proper _ _ place.leadsDown
    simp only [Option.any_some, Node.isDirectory, if_true, made]
    refine ⟨fs', rfl, ready.at_of_put hdone next copies _ furnished.proper ?_⟩
    intro l
    rw [place.get?_of_furnishes ready.proper.closed furnished, found, List.append_assoc]
  | file content =>
    obtain ⟨fs', copied, proper, get?⟩ := FileSystem.copyFile_to_free ready.proper place _ _ content
      located source
    simp only [Option.any_some, Node.isDirectory, Bool.false_eq_true, if_false, copied]
    refine ⟨fs', rfl, ready.at_of_put hdone next copies _ proper ?_⟩
    intro l
    rw [get?, found, List.append_assoc]

end

section
variable {b} {done : List Location} {fs : FileSystem} (now : b.At done fs.tree)
  (hdone : done ⊆ b.entries) {names : Location}

include now hdone

theorem At.transfer_next (next : b.IsNext done names) :
    ∃ fs', transfer b.mode fs (b.root.below names) (b.output.below names) = (fs', true) ∧
      b.At (done ++ [names]) fs'.tree := by
  obtain ⟨init, name, rfl⟩ :=
    (List.eq_nil_or_concat' names).resolve_left (b.named names next.listed)
  have there : fs.pathExists (b.root.below (init ++ [name])) = true := by
    rw [now.pathExists_eq hdone _ next.listed]
    exact now.contains_next hdone next
  obtain ⟨fs₁, made, ready⟩ := now.ready hdone next
  unfold transfer
  simp only [there, b.not_same _ next.listed, made, Bool.not_true, Bool.false_eq_true, if_false]
  cases hm : b.mode with
  | move =>
    obtain ⟨fs', moved, now'⟩ := ready.moveEntry hdone next hm
    exact ⟨fs', moved, now'⟩
  | copy =>
    obtain ⟨fs', copied, now'⟩ := ready.copyEntry hdone next hm
    exact ⟨fs', copied, now'⟩

theorem At.transfer_moved (listed : names ∈ b.entries) (moves : b.mode = .move) (other : Location)
    (before : other ∈ done) (above : other <+: names) :
    transfer b.mode fs (b.root.below names) (b.output.below names) = (fs, false) ∧
      b.At (done ++ [names]) fs.tree := by
  have gone : fs.tree.contains (b.base ++ names) = false := by
    have removed : b.Removes done (b.base ++ names) :=
      ⟨moves, other, before, (List.prefix_append_right_inj _).mpr above⟩
    rw [contains, now.get?, b.after_of_removes hdone _ (b.there names listed) removed]
    rfl
  refine ⟨?_, now.proper, ?_⟩
  · unfold transfer
    rw [now.pathExists_eq hdone names listed, gone]
    rfl
  · intro l
    rw [now.get?, b.after_append_of_moved moves other before above]

end

/-- An entry counts as transferred unless it was moved along with one above it. -/
def Counts (names : Location) : Prop :=
  b.mode = .move → ∀ other ∈ b.entries, other <+: names → other = names

instance (names : Location) : Decidable (b.Counts names) :=
  inferInstanceAs (Decidable (_ → _))

theorem transferEach_eq (fs : FileSystem) (done rest : List Location)
    (split : done ++ rest = b.entries) (now : b.At done fs.tree) :
    ∃ fs', transferEach b.mode b.root b.output fs (rest.map b.root.below) =
        (fs', (rest.filter b.Counts).map b.output.below) ∧ b.At b.entries fs'.tree := by
  induction rest generalizing fs done with
  | nil =>
    rw [List.append_nil] at split
    exact ⟨fs, rfl, split ▸ now⟩
  | cons names rest ih =>
    have hdone : done ⊆ b.entries := split ▸ List.subset_append_left _ _
    have listed : names ∈ b.entries := split ▸ by simp
    have sorted := b.sorted
    rw [← split, List.pairwise_append, List.pairwise_cons] at sorted
    obtain ⟨-, ⟨after, -⟩, before⟩ := sorted
    have first : ∀ other ∈ done, ¬ names <+: other := fun other hother above =>
      above.le (before other hother names (List.mem_cons_self ..))
    have target := destination_below b.root b.output names b.filled (b.named names listed)
      fun s hs => (b.legal names listed s hs).1
    have split' : done ++ [names] ++ rest = b.entries := by rw [← split]; simp
    rw [List.map_cons, transferEach, target]
    by_cases moved : b.mode = .move ∧ ∃ other ∈ done, other <+: names
    · obtain ⟨moves, other, hother, above⟩ := moved
      obtain ⟨skipped, now'⟩ := now.transfer_moved hdone listed moves other hother above
      have uncounted : ¬ b.Counts names := by
        intro counts
        have same := counts moves other (hdone hother) above
        exact first other hother (same ▸ List.prefix_refl _)
      obtain ⟨fs', later, now''⟩ := ih fs (done ++ [names]) split' now'
      refine ⟨fs', ?_, now''⟩
      simp only [skipped, later, List.filter_cons, uncounted, decide_false, Bool.false_eq_true,
        if_false]
    · have still : b.mode = .move → ∀ other ∈ done, ¬ other <+: names := fun moves other hother
        above => moved ⟨moves, other, hother, above⟩
      obtain ⟨fs₁, done', now'⟩ := now.transfer_next hdone ⟨listed, first, still⟩
      have counts : b.Counts names := by
        intro moves other hother above
        rw [← split, List.mem_append, List.mem_cons] at hother
        rcases hother with hother | same | hother
        · exact absurd above (still moves other hother)
        · exact same
        · exact absurd (after other hother) above.le
      obtain ⟨fs', later, now''⟩ := ih fs₁ (done ++ [names]) split' now'
      refine ⟨fs', ?_, now''⟩
      simp only [done', later, List.filter_cons, counts, decide_true, if_true, List.map_cons]

end Batch
end SimpleFiles.Group
