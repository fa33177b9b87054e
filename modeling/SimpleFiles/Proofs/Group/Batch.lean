import SimpleFiles.Execution.Group
import SimpleFiles.Proofs.FileTree.Placing
import SimpleFiles.Proofs.Path.Steps

/-! Entries that are transferred from below one directory to below another, and where
everything is when some of them are done. -/
namespace SimpleFiles.Group

open FileTree

/-- Entries to transfer, each known by the names that lead to it from the directory it is in.
Nothing is at their destinations, and only directories are on the way there. -/
structure Batch (t : FileTree) where
  mode : GroupMode
  root : Path
  output : Path
  base : Location
  out : Location
  entries : List Location
  proper : t.IsProper
  filled : root.text ≠ ""
  rootReached : t.walkTo? [] root.folder = some base
  outReached : t.walkTo? [] output.folder = some out
  outDirectory : t.isDirectory out = true
  sorted : entries.Pairwise (· < ·)
  named : ∀ names ∈ entries, names ≠ []
  there : ∀ names ∈ entries, t.contains (base ++ names) = true
  readable : ∀ names ∈ entries, Place.checkText (root.below names) = .ok ()
  writable : ∀ names ∈ entries, Place.checkText (output.below names) = .ok ()
  free : ∀ names ∈ entries, t.get? (out ++ names) = none
  roomy : ∀ names ∈ entries, ∀ m, m <+: names → t.contains (out ++ m) = true →
    t.isDirectory (out ++ m) = true
  /-- Nothing is moved into itself. -/
  apart : mode = .move → ∀ names ∈ entries, ∀ other ∈ entries, ¬ base ++ names <+: out ++ other
  /-- Nothing is moved that the two paths pass through. -/
  clear : mode = .move → ∀ names ∈ entries, base ++ names ∉ stations [] root.folder ∧
    base ++ names ∉ stations [] output.folder

namespace Batch

variable {t : FileTree} (b : Batch t)

/-- An entry that was done, or moved along with one, is to be at the location. -/
def Delivers (done : List Location) (l : Location) : Prop :=
  match b.mode with
  | .move => ∃ names ∈ done, b.out ++ names <+: l
  | .copy => ∃ names ∈ done, b.out ++ names = l

/-- An entry that was moved was at the location or above it. -/
def Removes (done : List Location) (l : Location) : Prop :=
  b.mode = .move ∧ ∃ names ∈ done, b.base ++ names <+: l

def Makes (done : List Location) (l : Location) : Prop :=
  t.get? l = none ∧ ∃ names ∈ done, l <+: b.out ++ names

instance (done : List Location) (l : Location) : Decidable (b.Delivers done l) := by
  unfold Delivers
  cases b.mode <;> infer_instance

instance (done : List Location) (l : Location) : Decidable (b.Removes done l) :=
  inferInstanceAs (Decidable (_ ∧ _))

instance (done : List Location) (l : Location) : Decidable (b.Makes done l) :=
  inferInstanceAs (Decidable (_ ∧ _))

/-- What is at a location when some entries are done. -/
def after (done : List Location) (l : Location) : Option Node :=
  if b.Delivers done l then t.get? (b.base ++ l.drop b.out.length)
  else if b.Removes done l then none
  else if b.Makes done l then some .directory
  else t.get? l

section
variable {done : List Location} {l : Location}

theorem exists_of_delivers (h : b.Delivers done l) : ∃ names ∈ done, b.out ++ names <+: l := by
  unfold Delivers at h
  cases hm : b.mode with
  | move => simpa [hm] using h
  | copy =>
    obtain ⟨names, listed, rfl⟩ : ∃ names ∈ done, b.out ++ names = l := by simpa [hm] using h
    exact ⟨names, listed, List.prefix_refl _⟩

theorem delivers_of_mem (names : Location) (h : names ∈ done) :
    b.Delivers done (b.out ++ names) := by
  unfold Delivers
  cases b.mode with
  | move => exact ⟨names, h, List.prefix_refl _⟩
  | copy => exact ⟨names, h, rfl⟩

theorem delivers_append (rest : List Location) :
    b.Delivers (done ++ rest) l ↔ b.Delivers done l ∨ b.Delivers rest l := by
  unfold Delivers
  cases b.mode <;> simp [or_and_right, exists_or]

theorem removes_append (rest : List Location) :
    b.Removes (done ++ rest) l ↔ b.Removes done l ∨ b.Removes rest l := by
  unfold Removes
  simp [or_and_right, exists_or, and_or_left]

theorem makes_append (rest : List Location) :
    b.Makes (done ++ rest) l ↔ b.Makes done l ∨ b.Makes rest l := by
  unfold Makes
  simp [or_and_right, exists_or, and_or_left]

end

theorem after_nil (l : Location) : b.after [] l = t.get? l := by
  have delivers : ¬ b.Delivers [] l := fun h => by simpa using b.exists_of_delivers h
  simp [after, delivers, Removes, Makes]

theorem after_of_delivers {done : List Location} (rest : Location)
    (h : b.Delivers done (b.out ++ rest)) :
    b.after done (b.out ++ rest) = t.get? (b.base ++ rest) := by
  rw [after, if_pos h, List.drop_left]

theorem legal (names : Location) (h : names ∈ b.entries) : ∀ s ∈ names, IsLegalName s :=
  fun s hs => b.proper.legal_of_contains _ (b.there names h) s (List.mem_append_right _ hs)

theorem below_root (names : Location) (h : names ∈ b.entries) :
    b.root.below names = ⟨b.root.folder ++ names⟩ :=
  b.root.below_eq names (b.named names h) fun s hs => (b.legal names h s hs).1

theorem below_output (names : Location) (h : names ∈ b.entries) :
    b.output.below names = ⟨b.output.folder ++ names⟩ :=
  b.output.below_eq names (b.named names h) fun s hs => (b.legal names h s hs).1

theorem not_same (names : Location) (h : names ∈ b.entries) :
    (b.output.below names).same (b.root.below names) = false := by
  rw [Bool.eq_false_iff]
  intro same
  have steps := Path.steps_eq_of_same _ _ same
  rw [b.below_output names h, b.below_root names h, Path.steps_append, Path.steps_append,
    List.append_left_inj] at steps
  have toOut := t.walkTo?_steps [] b.out _ b.outReached
  rw [steps, t.walkTo?_steps [] b.base _ b.rootReached, Option.some.injEq] at toOut
  have there := b.there names h
  rw [contains, toOut, b.free names h] at there
  cases there

section
variable {done : List Location} (hdone : done ⊆ b.entries)

include hdone in
theorem not_delivers_of_contains (l : Location) (hl : t.contains l = true) :
    ¬ b.Delivers done l := by
  intro delivered
  obtain ⟨names, listed, above⟩ := b.exists_of_delivers delivered
  have taken := t.contains_above b.proper.closed l _ hl above
  rw [contains, b.free names (hdone listed)] at taken
  cases taken

include hdone in
theorem not_removes_of_prefix (names : Location) (h : names ∈ b.entries) (l : Location)
    (hl : l <+: b.out ++ names) : ¬ b.Removes done l := by
  rintro ⟨moves, other, listed, above⟩
  exact b.apart moves other (hdone listed) names h (above.trans hl)

include hdone in
theorem after_of_contains (l : Location) (hl : t.contains l = true) (kept : ¬ b.Removes done l) :
    b.after done l = t.get? l := by
  have notMade : ¬ b.Makes done l := by
    rintro ⟨missing, -⟩
    rw [contains, missing] at hl
    cases hl
  rw [after, if_neg (b.not_delivers_of_contains hdone l hl), if_neg kept, if_neg notMade]

include hdone in
theorem after_of_removes (l : Location) (hl : t.contains l = true) (removed : b.Removes done l) :
    b.after done l = none := by
  rw [after, if_neg (b.not_delivers_of_contains hdone l hl), if_pos removed]

include hdone in
theorem after_of_station (segments : List String)
    (clear : b.mode = .move → ∀ names ∈ b.entries, b.base ++ names ∉ stations [] segments)
    (l : Location) (hl : l ∈ stations [] segments) (there : t.contains l = true) :
    b.after done l = t.get? l := by
  apply b.after_of_contains hdone l there
  rintro ⟨moves, names, listed, above⟩
  have notClear := clear moves names (hdone listed)
  rcases mem_stations_above [] l _ segments hl above with root | onWay
  · have none := List.prefix_nil.mp root
    exact b.named names (hdone listed) (List.append_eq_nil_iff.mp none).2
  · exact notClear onWay

/-- An entry that is not done and whose turn it is: nothing that is done lies below it, and it
was not moved along with an entry above it. -/
structure IsNext (done : List Location) (names : Location) : Prop where
  listed : names ∈ b.entries
  first : ∀ other ∈ done, ¬ names <+: other
  still : b.mode = .move → ∀ other ∈ done, ¬ other <+: names

variable {names : Location} (next : b.IsNext done names)

include hdone next in
theorem after_destination : b.after done (b.out ++ names) = none := by
  have notDelivered : ¬ b.Delivers done (b.out ++ names) := by
    unfold Delivers
    cases hm : b.mode with
    | move =>
      rintro ⟨other, listed, above⟩
      exact next.still hm other listed ((List.prefix_append_right_inj _).mp above)
    | copy =>
      rintro ⟨other, listed, same⟩
      exact next.first other listed (List.append_cancel_left same ▸ List.prefix_refl _)
  have notMade : ¬ b.Makes done (b.out ++ names) := by
    rintro ⟨-, other, listed, above⟩
    exact next.first other listed ((List.prefix_append_right_inj _).mp above)
  rw [after, if_neg notDelivered,
    if_neg (b.not_removes_of_prefix hdone names next.listed _ (List.prefix_refl _)),
    if_neg notMade]
  exact b.free names next.listed

include hdone next in
theorem after_source : b.after done (b.base ++ names) = t.get? (b.base ++ names) := by
  apply b.after_of_contains hdone _ (b.there names next.listed)
  rintro ⟨moves, other, listed, above⟩
  exact next.still moves other listed ((List.prefix_append_right_inj _).mp above)

include hdone next in
theorem after_below_source (moves : b.mode = .move) (rest : Location) :
    b.after done (b.base ++ names ++ rest) = t.get? (b.base ++ names ++ rest) := by
  have outside : ∀ other ∈ done, ¬ b.base ++ names <+: b.out ++ other := fun other listed =>
    b.apart moves names next.listed other (hdone listed)
  have notDelivered : ¬ b.Delivers done (b.base ++ names ++ rest) := by
    intro delivered
    obtain ⟨other, listed, above⟩ := b.exists_of_delivers delivered
    rcases List.prefix_or_prefix_of_prefix above (List.prefix_append _ rest) with within | within
    · exact b.not_delivers_of_contains hdone _ (b.there names next.listed)
        (by unfold Delivers; rw [moves]; exact ⟨other, listed, within⟩)
    · exact outside other listed within
  have notRemoved : ¬ b.Removes done (b.base ++ names ++ rest) := by
    rintro ⟨-, other, listed, above⟩
    rw [List.append_assoc, List.prefix_append_right_inj] at above
    rcases List.prefix_or_prefix_of_prefix above (List.prefix_append names rest) with up | down
    · exact next.still moves other listed up
    · exact next.first other listed down
  have notMade : ¬ b.Makes done (b.base ++ names ++ rest) := by
    rintro ⟨-, other, listed, above⟩
    exact outside other listed ((List.prefix_append _ rest).trans above)
  rw [after, if_neg notDelivered, if_neg notRemoved, if_neg notMade]

include next in
theorem isDirectory_of_delivers (m : Location) (hm : m <+: names)
    (delivered : b.Delivers done (b.out ++ m)) :
    t.get? (b.base ++ m) = some .directory := by
  unfold Delivers at delivered
  cases hmode : b.mode with
  | move =>
    rw [hmode] at delivered
    obtain ⟨other, listed, above⟩ := delivered
    exact absurd (((List.prefix_append_right_inj _).mp above).trans hm)
      (next.still hmode other listed)
  | copy =>
    rw [hmode] at delivered
    obtain ⟨other, listed, same⟩ := delivered
    obtain rfl := List.append_cancel_left same
    obtain ⟨rest, rfl⟩ := hm
    cases rest with
    | nil => exact absurd (by simp) (next.first other listed)
    | cons s rest =>
      have below := t.contains_above b.proper.closed _ (b.base ++ other ++ [s])
        (b.there _ next.listed) (by simp)
      exact (t.isDirectory_iff _).mp (t.isDirectory_of_contains b.proper.closed _ s below)

include hdone next in
theorem after_on_way (m : Location) (hm : m <+: names) (n : Node)
    (found : b.after done (b.out ++ m) = some n) : n = .directory := by
  have kept := b.not_removes_of_prefix hdone names next.listed (b.out ++ m)
    ((List.prefix_append_right_inj _).mpr hm)
  unfold after at found
  split at found
  · rename_i delivered
    rw [List.drop_left, b.isDirectory_of_delivers next m hm delivered] at found
    exact (Option.some.inj found).symm
  · split at found
    · exact (Option.some.inj found).symm
    · have directory := b.roomy names next.listed m hm ((t.contains_iff _).mpr ⟨n, found⟩)
      rw [(t.isDirectory_iff _).mp directory] at found
      exact (Option.some.inj found).symm

end

section
variable {done : List Location} (hdone : done ⊆ b.entries) {names : Location}

include hdone in
theorem after_append_of_removed (moves : b.mode = .move) (next : b.IsNext done names)
    (rest : Location) : b.after (done ++ [names]) (b.base ++ names ++ rest) = none := by
  have notDelivered : ¬ b.Delivers (done ++ [names]) (b.base ++ names ++ rest) := by
    intro delivered
    obtain ⟨other, listed, above⟩ := b.exists_of_delivers delivered
    have inBatch : other ∈ b.entries := by
      rcases List.mem_append.mp listed with h | h
      · exact hdone h
      · exact List.mem_singleton.mp h ▸ next.listed
    rcases List.prefix_or_prefix_of_prefix above (List.prefix_append _ rest) with within | within
    · have single : [other] ⊆ b.entries := by simpa using inBatch
      refine b.not_delivers_of_contains single _ (b.there names next.listed) ?_
      unfold Delivers
      rw [moves]
      exact ⟨other, List.mem_singleton_self _, within⟩
    · exact b.apart moves names next.listed other inBatch within
  have removed : b.Removes (done ++ [names]) (b.base ++ names ++ rest) :=
    ⟨moves, names, by simp, List.prefix_append _ _⟩
  rw [after, if_neg notDelivered, if_pos removed]

theorem after_append_of_moved (moves : b.mode = .move) (other : Location) (listed : other ∈ done)
    (above : other <+: names) (l : Location) : b.after (done ++ [names]) l = b.after done l := by
  have up := (List.prefix_append_right_inj b.out).mpr above
  have delivers : b.Delivers [names] l → b.Delivers done l := by
    unfold Delivers
    rw [moves]
    rintro ⟨same, hs, within⟩
    rw [List.mem_singleton.mp hs] at within
    exact ⟨other, listed, up.trans within⟩
  have removes : b.Removes [names] l → b.Removes done l := by
    rintro ⟨-, same, hs, within⟩
    rw [List.mem_singleton.mp hs] at within
    exact ⟨moves, other, listed, ((List.prefix_append_right_inj b.base).mpr above).trans within⟩
  have makes : ¬ b.Delivers done l → b.Makes [names] l → b.Makes done l := by
    rintro notDelivered ⟨missing, same, hs, within⟩
    rw [List.mem_singleton.mp hs] at within
    refine ⟨missing, other, listed, ?_⟩
    rcases List.prefix_or_prefix_of_prefix within up with below | beyond
    · exact below
    · exact absurd (by unfold Delivers; rw [moves]; exact ⟨other, listed, beyond⟩) notDelivered
  unfold after
  simp only [delivers_append, removes_append, makes_append]
  by_cases delivered : b.Delivers done l
  · simp [delivered]
  · by_cases removed : b.Removes done l
    · simp [removed, mt delivers delivered]
    · simp only [delivered, mt delivers delivered, removed, mt removes removed, or_self, if_false]
      by_cases made : b.Makes done l
      · simp [made]
      · simp [made, mt (makes delivered) made]

include hdone in
theorem after_append (init : Location) (name : String) (next : b.IsNext done (init ++ [name]))
    (l : Location) (notDelivered : ¬ b.Delivers [init ++ [name]] l)
    (notRemoved : ¬ b.Removes [init ++ [name]] l) :
    b.after (done ++ [init ++ [name]]) l =
      if b.after done l = none ∧ l <+: b.out ++ init then some .directory else b.after done l := by
  have elsewhere : l ≠ b.out ++ init ++ [name] := by
    rintro rfl
    rw [List.append_assoc] at notDelivered
    exact notDelivered (b.delivers_of_mem _ (List.mem_singleton_self _))
  have onWay : l <+: b.out ++ (init ++ [name]) ↔ l <+: b.out ++ init := by
    rw [← List.append_assoc, List.prefix_concat_iff]
    exact or_iff_right elsewhere
  have longer : b.out ++ init <+: b.out ++ (init ++ [name]) := by simp
  unfold after
  simp only [delivers_append, removes_append, makes_append, notDelivered, notRemoved, or_false]
  by_cases delivered : b.Delivers done l
  · have found : ¬ (t.get? (b.base ++ l.drop b.out.length) = none ∧ l <+: b.out ++ init) := by
      rintro ⟨none, within⟩
      obtain ⟨other, listed, above⟩ := b.exists_of_delivers delivered
      obtain ⟨m, rfl⟩ := (List.prefix_append _ other).trans above
      have directory := b.isDirectory_of_delivers next m
        ((List.prefix_append_right_inj _).mp (within.trans longer)) delivered
      rw [List.drop_left, directory] at none
      cases none
    simp [delivered, found]
  · by_cases removed : b.Removes done l
    · have outside : ¬ l <+: b.out ++ init := fun within =>
        b.not_removes_of_prefix hdone _ next.listed l (within.trans longer) removed
      simp [delivered, removed, outside]
    · by_cases made : b.Makes done l
      · simp [delivered, removed, made]
      · have single : b.Makes [init ++ [name]] l ↔ t.get? l = none ∧ l <+: b.out ++ init := by
          unfold Makes
          simp only [List.mem_singleton, exists_eq_left, onWay]
        simp [delivered, removed, made, single]

end

end Batch
end SimpleFiles.Group
