import Mathlib.Logic.Relation
import SimpleFiles.Proofs.FileSystem.Calls

/-! Changes that stay below a location: calls that touch nothing else. On the way of a path that
stays below it, all that is not below it is a directory already, so nothing else can be made. -/
namespace SimpleFiles.FileSystem

open FileTree

/-- A call that touches nothing but what lies strictly below a location. -/
def CallBelow (base : Location) (fs fs' : FileSystem) : Prop :=
  ∃ call : Call, call.perform fs = .ok fs' ∧ ∀ l ∈ call.touched fs.tree, LiesBelow base l

abbrev ChangesBelow (base : Location) : FileSystem → FileSystem → Prop :=
  Relation.ReflTransGen (CallBelow base)

variable {base : Location} {fs fs₁ fs' : FileSystem}

theorem CallBelow.get? (h : CallBelow base fs fs') (l : Location) (outside : ¬ LiesBelow base l) :
    fs'.tree.get? l = fs.tree.get? l := by
  obtain ⟨call, done, below⟩ := h
  exact call.get?_of_untouched done l fun m hm above => outside ((below m hm).deeper above)

theorem ChangesBelow.get? (h : ChangesBelow base fs fs') (l : Location)
    (outside : ¬ LiesBelow base l) : fs'.tree.get? l = fs.tree.get? l := by
  induction h with
  | refl => rfl
  | tail _ last ih => rw [last.get? l outside, ih]

/-- Changes stayed below a location, and led to a tree that a disk may hold. -/
structure Confined (base : Location) (fs fs' : FileSystem) : Prop where
  changes : ChangesBelow base fs fs'
  proper : fs'.tree.IsProper

theorem Confined.refl (proper : fs.tree.IsProper) : Confined base fs fs := ⟨.refl, proper⟩

theorem Confined.trans (first : Confined base fs fs₁) (second : Confined base fs₁ fs') :
    Confined base fs fs' :=
  ⟨first.changes.trans second.changes, second.proper⟩

/-- All on the way of a path is a directory or lies below the location. -/
structure StaysBelow (base : Location) (t : FileTree) (p : Path) : Prop where
  plain : p.IsPlain
  onWay : ∀ w, w <+: Path.steps p.segments →
    t.isDirectory (wayEnd [] w) = true ∨ LiesBelow base (wayEnd [] w)

namespace StaysBelow

variable {p q : Path}

theorem confined (h : StaysBelow base fs.tree p) (done : Confined base fs fs') :
    StaysBelow base fs'.tree p := by
  refine ⟨h.plain, ?_⟩
  intro w hw
  by_cases below : LiesBelow base (wayEnd [] w)
  · exact .inr below
  · have same := done.changes.get? _ below
    have directory := (h.onWay w hw).resolve_right below
    exact .inl (by rwa [FileTree.isDirectory, same])

theorem parent (h : StaysBelow base fs.tree p) (found : p.parent? = some q) :
    StaysBelow base fs.tree q := by
  refine ⟨h.plain.parent? found, ?_⟩
  intro w hw
  rw [p.steps_parent? q found] at hw
  exact h.onWay w (hw.trans (List.dropLast_prefix _))

theorem liesBelow (h : StaysBelow base fs.tree p)
    (vacant : fs.tree.isDirectory (wayEnd [] p.segments) = false) :
    LiesBelow base (wayEnd [] p.segments) := by
  have ends := h.onWay _ (List.prefix_refl _)
  rw [wayEnd_steps, vacant] at ends
  exact ends.resolve_left Bool.false_ne_true

end StaysBelow

section
variable {p : Path} (proper : fs.tree.IsProper) (h : StaysBelow base fs.tree p)

theorem confined_of_perform (call : Call) (proper : fs.tree.IsProper)
    (plain : ∀ p ∈ call.paths, p.IsPlain) (below : ∀ l ∈ call.touched fs.tree, LiesBelow base l)
    (done : call.perform fs = .ok fs') : Confined base fs fs' :=
  ⟨.single ⟨call, done, below⟩, call.isProper_of_perform proper plain done⟩

include proper h in
theorem confined_of_vacant (call : Call) (only : call.paths = [p])
    (vacant : ∀ l ∈ call.touched fs.tree, fs.tree.isDirectory l = false)
    (done : call.perform fs = .ok fs') : Confined base fs fs' := by
  refine confined_of_perform call proper (by simpa [only] using h.plain) ?_ done
  intro l hl
  obtain ⟨q, hq, ends⟩ := call.eq_wayEnd_of_touched proper.noLinks l hl
  rw [only, List.mem_singleton] at hq
  subst hq
  have free := vacant l hl
  rw [ends] at free ⊢
  exact h.liesBelow free

theorem isDirectory_of_free (l : Location) (free : fs.tree.get? l = none) :
    fs.tree.isDirectory l = false := by
  rw [FileTree.isDirectory, free]
  rfl

theorem mem_touched_iff (last : LastName) (l : Location)
    (found : LastName.ofPath fs.tree p = .ok (some last)) :
    l ∈ (LastName.location? fs.tree p).toList ↔ l = last.location := by
  rw [LastName.location?_of_ofPath found, Option.toList_some, List.mem_singleton]

include proper h in
theorem confined_createDirectory (done : fs.createDirectory p = .ok fs') :
    Confined base fs fs' := by
  refine confined_of_vacant proper h (.createDirectory p) rfl ?_ done
  obtain ⟨last, found, free, -⟩ := lastName_of_createDirectory done
  intro l hl
  rw [(mem_touched_iff last l found).mp hl]
  exact isDirectory_of_free _ free

include proper h in
theorem confined_createFile (done : fs.createFile p = .ok fs') : Confined base fs fs' := by
  refine confined_of_vacant proper h (.createFile p) rfl ?_ done
  obtain ⟨last, found, -, free, -⟩ := lastName_of_createFile done
  intro l hl
  rw [(mem_touched_iff last l found).mp hl]
  exact isDirectory_of_free _ free

include proper h in
theorem confined_removeFile (done : fs.removeFile p = .ok fs') : Confined base fs fs' := by
  refine confined_of_vacant proper h (.removeFile p) rfl ?_ done
  obtain ⟨last, n, found, there, noDirectory, -⟩ := lastName_of_removeFile done
  intro l hl
  rw [(mem_touched_iff last l found).mp hl, FileTree.isDirectory, there]
  exact noDirectory

include proper h in
theorem confined_write (content : ByteArray) (done : fs.write p content = .ok fs') :
    Confined base fs fs' := by
  refine confined_of_vacant proper h (.write p content) rfl ?_ done
  intro l hl
  rw [Call.touched, Option.mem_toList, Place.location?] at hl
  rcases write_cases p content done with
    ⟨parent, name, reached, -⟩ | ⟨m, old, reached, found, -⟩
  · rw [reached] at hl
    cases hl
    exact isDirectory_of_free _ (Place.free_of_ofPath p parent name reached).2
  · rw [reached] at hl
    cases hl
    rw [FileTree.isDirectory, found]
    rfl

include proper h in
theorem confined_copyFile (source : Path) (done : fs.copyFile source p = .ok fs') :
    Confined base fs fs' := by
  unfold copyFile at done
  simp only [bind, Except.bind] at done
  split at done
  · cases done
  split at done
  · split at done
    · cases done
    rename_i fs₁ emptied
    have first := confined_write proper h .empty emptied
    split at done
    · cases done
      exact first
    · exact first.trans (confined_write first.proper (h.confined first) _ done)
  · cases done

theorem confined_rename (proper : fs.tree.IsProper) (source target : Path) (plain : source.IsPlain)
    (plain' : target.IsPlain) (below : LiesBelow base (wayEnd [] source.segments))
    (below' : LiesBelow base (wayEnd [] target.segments))
    (done : fs.rename source target = .ok fs') : Confined base fs fs' := by
  refine confined_of_perform (.rename source target) proper (by simp [Call.paths, plain, plain']) ?_
    done
  intro l hl
  obtain ⟨p, hp, ends⟩ := (Call.rename source target).eq_wayEnd_of_touched proper.noLinks l hl
  rcases List.mem_cons.mp hp with rfl | hp
  · rwa [ends]
  · rw [ends, List.mem_singleton.mp hp]
    exact below'

end

theorem confined_createAll (fs : FileSystem) (p : Path) (proper : fs.tree.IsProper)
    (h : StaysBelow base fs.tree p) : Confined base fs (fs.createAll p).1 := by
  refine createAllUpTo_of_steps fs (fun p fs' => StaysBelow base fs.tree p → Confined base fs fs')
    (fun _ _ => .refl proper) ?_ ?_ (p.depth + 1) p h
  · intro p q fs' parent above h
    exact above (h.parent parent)
  · intro p fs₁ fs' done created h
    have first := done h
    exact first.trans (confined_createDirectory first.proper (h.confined first) created)

section
variable {dir p : Path} {names : List String}
  (named : ∀ e ∈ fs.tree.entries, ∀ s ∈ e.1, IsEntryName s) (extended : dir.Extends names p)

include named extended

theorem extends_of_under (l more : Location) (n : Node) (below : (more, n) ∈ fs.tree.under l) :
    more ≠ [] ∧ dir.Extends (names ++ more) (p.below more) := by
  obtain ⟨filled, listed⟩ := (fs.tree.mem_under_iff l more n).mp below
  exact ⟨filled, extended.below more filled fun s hs =>
    named _ listed s (List.mem_append_right _ hs)⟩

theorem isBelow_of_walk : ∀ entry ∈ fs.walk p, entry.IsBelow dir := by
  intro entry listed
  unfold walk at listed
  split at listed
  · rename_i l _
    obtain ⟨⟨more, n⟩, below, rfl⟩ := List.mem_map.mp listed
    obtain ⟨filled, further⟩ := extends_of_under named extended l more n below
    exact ⟨names ++ more, List.append_ne_nil_of_right_ne_nil _ filled, further⟩
  · cases listed

theorem isBelow_of_children (entries : List Path) (listed : fs.children p = .ok entries) :
    ∀ entry ∈ entries, entry.IsBelow dir := by
  unfold children at listed
  simp only [bind, Except.bind] at listed
  split at listed
  · cases listed
  rename_i l _
  split at listed
  · cases listed
    intro entry member
    obtain ⟨name, child, rfl⟩ := List.mem_map.mp member
    obtain ⟨n, below⟩ := (exists_mem_under_iff _ l [name]).mpr
      ⟨by simp, (mem_children_iff _ l name).mp child⟩
    obtain ⟨filled, further⟩ := extends_of_under named extended l [name] n below
    exact ⟨names ++ [name], List.append_ne_nil_of_right_ne_nil _ filled, further⟩
  · cases listed

end

/-- The working directory is there, at a location that what follows stays below. Its path may go
through what lies below it and back up, so only what does not lie below is sure to be there. -/
structure Anchored (dir : Path) (base : Location) (fs : FileSystem) : Prop where
  proper : fs.tree.IsProper
  absolute : dir.isAbsolute = true
  ends : wayEnd [] dir.segments = base
  stays : StaysBelow base fs.tree dir

theorem isPlain_of_walkTo? {t : FileTree} (proper : t.IsProper) (at_ l : Location)
    (segments : List String) (h : t.walkTo? at_ segments = some l) : Path.IsPlain ⟨segments⟩ := by
  induction segments generalizing at_ with
  | nil => exact fun s hs => absurd hs List.not_mem_nil
  | cons s rest ih =>
    refine List.forall_mem_cons.mpr ?_
    rw [walkTo?] at h
    split at h
    · cases h
    split at h
    · rename_i idle
      refine ⟨?_, ih _ h⟩
      rcases Bool.or_eq_true_iff.mp idle with empty | dot
      · rw [of_decide_eq_true empty]
        exact List.not_mem_nil
      · rw [of_decide_eq_true dot]
        decide
    split at h
    · rename_i up
      refine ⟨?_, ih _ h⟩
      rw [up]
      decide
    split at h
    · cases h
    split at h
    · rename_i there
      exact ⟨(proper.legal_of_contains _ there s (by simp)).1.noSlash, ih _ h⟩
    · cases h

theorem anchored_of_locate {dir : Path} (proper : fs.tree.IsProper)
    (absolute : dir.isAbsolute = true) (located : Place.locate fs.tree true dir = .ok base)
    (directory : fs.tree.isDirectory base = true) : Anchored dir base fs := by
  obtain ⟨-, walked⟩ := (Place.locate_eq_ok_iff fs.tree proper.noLinks true dir base).mp located
  refine ⟨proper, absolute, (fs.tree.eq_wayEnd_of_walkTo? [] base _ walked).symm,
    isPlain_of_walkTo? proper [] base _ walked, ?_⟩
  rintro w ⟨rest, split⟩
  have steps := fs.tree.walkTo?_steps [] base _ walked
  rw [← split, walkTo?_append] at steps
  obtain ⟨m, reached, onward⟩ := Option.bind_eq_some_iff.mp steps
  rw [← fs.tree.eq_wayEnd_of_walkTo? [] m w reached]
  exact .inl (fs.tree.isDirectory_of_walkTo? m base rest onward directory)

namespace Anchored

variable {dir p : Path} {names : List String}

theorem rooted (h : Anchored dir base fs) : dir.IsRooted := ⟨h.absolute, h.stays.plain⟩

theorem confined (h : Anchored dir base fs) (done : Confined base fs fs') :
    Anchored dir base fs' :=
  ⟨done.proper, h.absolute, h.ends, h.stays.confined done⟩

theorem isDirectory (h : Anchored dir base fs) : fs.tree.isDirectory base = true := by
  have ends := h.stays.onWay _ (List.prefix_refl _)
  rw [wayEnd_steps, h.ends] at ends
  exact ends.resolve_right fun below => below.2 rfl

theorem wayEnd_append_names (h : Anchored dir base fs) (extended : dir.Extends names p)
    (more : List String) (within : more <+: names) :
    wayEnd [] (Path.steps dir.segments ++ more) = base ++ more := by
  rw [wayEnd_append, wayEnd_steps, h.ends]
  exact wayEnd_names base more (fun s hs => extended.moving s (within.subset hs))
    fun up => extended.down (within.subset up)

theorem wayEnd_of_extends (h : Anchored dir base fs) (extended : dir.Extends names p) :
    wayEnd [] p.segments = base ++ names := by
  rw [← wayEnd_steps, extended.steps, h.wayEnd_append_names extended names (List.prefix_refl _)]

theorem staysBelow (h : Anchored dir base fs) (extended : dir.Extends names p) :
    StaysBelow base fs.tree p := by
  refine ⟨extended.plain, ?_⟩
  intro w hw
  rw [extended.steps] at hw
  rcases List.prefix_or_prefix_of_prefix hw (List.prefix_append _ names) with above | ⟨more, rfl⟩
  · exact h.stays.onWay w above
  · by_cases none : more = []
    · rw [none, List.append_nil]
      exact h.stays.onWay _ (List.prefix_refl _)
    · rw [h.wayEnd_append_names extended more ((List.prefix_append_right_inj _).mp hw)]
      exact .inr (liesBelow_append base more none)

theorem liesBelow (h : Anchored dir base fs) (extended : dir.Extends names p)
    (filled : names ≠ []) : LiesBelow base (wayEnd [] p.segments) := by
  rw [h.wayEnd_of_extends extended]
  exact liesBelow_append base names filled

end Anchored
end SimpleFiles.FileSystem
