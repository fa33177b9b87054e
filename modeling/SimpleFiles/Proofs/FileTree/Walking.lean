import Mathlib.Data.List.Induction
import SimpleFiles.FileSystem.Resolve
import SimpleFiles.Proofs.FileName
import SimpleFiles.Proofs.FileTree.Entries

/-! Where a path leads when there are no links: the locations it passes can be read off
its segments, and all that the tree decides is whether they are there. -/
namespace SimpleFiles

namespace FileTree

def HasNoLinks (t : FileTree) : Prop := ∀ e ∈ t.entries, e.2.isLink = false

theorem HasNoLinks.get?_ne_link {t : FileTree} (plain : t.HasNoLinks) (l : Location)
    (target : String) : t.get? l ≠ some (.link target) := by
  intro found
  by_cases root : l = []
  · rw [root, get?, if_pos rfl] at found
    cases found
  · cases plain _ ((t.get?_eq_some_iff l root _).mp found)

/-- Every entry lies in a directory. -/
def IsClosed (t : FileTree) : Prop := ∀ e ∈ t.entries, e.1 ≠ [] ∧ t.isDirectory e.1.dropLast = true

/-- A tree as a disk may hold it, without links: entries lie in directories, and their names
can stand in paths. -/
structure IsProper (t : FileTree) : Prop where
  noLinks : t.HasNoLinks
  closed : t.IsClosed
  named : ∀ e ∈ t.entries, ∀ s ∈ e.1, IsEntryName s ∧ s.utf8ByteSize ≤ Place.maxNameSize

instance (t : FileTree) : Decidable t.HasNoLinks :=
  inferInstanceAs (Decidable (∀ e ∈ t.entries, e.2.isLink = false))

instance (t : FileTree) : Decidable t.IsClosed :=
  inferInstanceAs (Decidable (∀ e ∈ t.entries, e.1 ≠ [] ∧ t.isDirectory e.1.dropLast = true))

instance (t : FileTree) : Decidable t.IsProper :=
  decidable_of_iff (t.HasNoLinks ∧ t.IsClosed ∧ ∀ e ∈ t.entries, ∀ s ∈ e.1,
      IsEntryName s ∧ s.utf8ByteSize ≤ Place.maxNameSize)
    ⟨fun ⟨noLinks, closed, named⟩ => ⟨noLinks, closed, named⟩,
      fun h => ⟨h.noLinks, h.closed, h.named⟩⟩

def walkTo? (t : FileTree) (at_ : Location) : List String → Option Location
  | [] => some at_
  | s :: rest =>
    if !t.isDirectory at_ then none
    else if Path.isIdle s then walkTo? t at_ rest
    else if s = ".." then walkTo? t at_.dropLast rest
    else if s.utf8ByteSize > Place.maxNameSize then none
    else if t.contains (at_ ++ [s]) then walkTo? t (at_ ++ [s]) rest
    else none

/-- The locations that segments pass, the first one included. -/
def stations (at_ : Location) : List String → List Location
  | [] => [at_]
  | s :: rest =>
    at_ :: if Path.isIdle s then stations at_ rest
      else if s = ".." then stations at_.dropLast rest
      else stations (at_ ++ [s]) rest

theorem mem_stations_self (at_ : Location) (segments : List String) :
    at_ ∈ stations at_ segments := by
  cases segments with
  | nil => exact List.mem_singleton.mpr rfl
  | cons s rest => exact List.mem_cons_self ..

theorem walkTo?_append (t : FileTree) (at_ : Location) (first rest : List String) :
    t.walkTo? at_ (first ++ rest) = (t.walkTo? at_ first).bind (t.walkTo? · rest) := by
  induction first generalizing at_ with
  | nil => rfl
  | cons s first ih =>
    simp only [List.cons_append, walkTo?]
    split
    · rfl
    · split
      · exact ih at_
      · split
        · exact ih at_.dropLast
        · split
          · rfl
          · split
            · exact ih (at_ ++ [s])
            · rfl

theorem eq_of_walkTo?_idle (t : FileTree) (at_ l : Location) (segments : List String)
    (idle : ∀ s ∈ segments, Path.isIdle s = true) (h : t.walkTo? at_ segments = some l) :
    at_ = l := by
  induction segments with
  | nil => exact Option.some.inj h
  | cons s rest ih =>
    rw [walkTo?] at h
    split at h
    · cases h
    · rw [if_pos (idle s (List.mem_cons_self ..))] at h
      exact ih (fun x hx => idle x (List.mem_cons_of_mem _ hx)) h

theorem walkTo?_of_append_idle (t : FileTree) (at_ l : Location) (first idle : List String)
    (hidle : ∀ s ∈ idle, Path.isIdle s = true) (h : t.walkTo? at_ (first ++ idle) = some l) :
    t.walkTo? at_ first = some l := by
  rw [walkTo?_append] at h
  obtain ⟨m, hm, rest⟩ := Option.bind_eq_some_iff.mp h
  rw [hm, t.eq_of_walkTo?_idle m l idle hidle rest]

theorem walkTo?_congr (t u : FileTree) (at_ : Location) (segments : List String)
    (h : ∀ l ∈ stations at_ segments, t.get? l = u.get? l) :
    t.walkTo? at_ segments = u.walkTo? at_ segments := by
  induction segments generalizing at_ with
  | nil => rfl
  | cons s rest ih =>
    have here : t.isDirectory at_ = u.isDirectory at_ := by
      rw [isDirectory, isDirectory, h at_ (mem_stations_self at_ _)]
    simp only [walkTo?, here]
    simp only [stations] at h
    split
    · rfl
    · split
      · rename_i idle
        rw [if_pos idle] at h
        exact ih at_ fun l hl => h l (List.mem_cons_of_mem _ hl)
      · rename_i idle
        rw [if_neg idle] at h
        split
        · rename_i up
          rw [if_pos up] at h
          exact ih at_.dropLast fun l hl => h l (List.mem_cons_of_mem _ hl)
        · rename_i up
          rw [if_neg up] at h
          have next : t.contains (at_ ++ [s]) = u.contains (at_ ++ [s]) := by
            rw [contains, contains,
              h (at_ ++ [s]) (List.mem_cons_of_mem _ (mem_stations_self _ rest))]
          rw [next]
          split
          · rfl
          · split
            · exact ih (at_ ++ [s]) fun l hl => h l (List.mem_cons_of_mem _ hl)
            · rfl

theorem contains_dropLast (t : FileTree) (closed : t.IsClosed) (l : Location)
    (h : t.contains l = true) : t.contains l.dropLast = true := by
  by_cases hl : l = []
  · subst hl
    exact h
  · obtain ⟨n, hn⟩ := Option.isSome_iff_exists.mp h
    have parent := (closed _ ((t.get?_eq_some_iff l hl n).mp hn)).2
    rw [isDirectory] at parent
    cases hp : t.get? l.dropLast with
    | none =>
      rw [hp] at parent
      cases parent
    | some m =>
      rw [contains, hp]
      rfl

theorem contains_above (t : FileTree) (closed : t.IsClosed) (l m : Location)
    (h : t.contains l = true) (hm : m <+: l) : t.contains m = true := by
  obtain ⟨rest, rfl⟩ := hm
  induction rest using List.reverseRecOn with
  | nil => simpa using h
  | append_singleton rest s ih =>
    have above := t.contains_dropLast closed _ h
    rw [← List.append_assoc, List.dropLast_concat] at above
    exact ih above

theorem contains_of_mem (t : FileTree) (closed : t.IsClosed) (e : Location × Node)
    (h : e ∈ t.entries) : t.contains e.1 = true := by
  rw [contains, (t.get?_eq_some_iff e.1 (closed e h).1 e.2).mpr h]
  rfl

theorem isDirectory_of_contains (t : FileTree) (closed : t.IsClosed) (l : Location) (s : String)
    (h : t.contains (l ++ [s]) = true) : t.isDirectory l = true := by
  obtain ⟨n, hn⟩ := Option.isSome_iff_exists.mp h
  have inside := (closed _ ((t.get?_eq_some_iff _ (by simp) n).mp hn)).2
  rwa [List.dropLast_concat] at inside

theorem contains_of_walkTo? (t : FileTree) (closed : t.IsClosed) (at_ l : Location)
    (segments : List String) (start : t.contains at_ = true)
    (h : t.walkTo? at_ segments = some l) : ∀ m ∈ stations at_ segments, t.contains m = true := by
  induction segments generalizing at_ with
  | nil =>
    intro m hm
    rw [List.mem_singleton.mp hm]
    exact start
  | cons s rest ih =>
    intro m hm
    simp only [walkTo?] at h
    simp only [stations, List.mem_cons] at hm
    rcases hm with rfl | hm
    · exact start
    · split at h
      · cases h
      · split at h
        · rename_i idle
          rw [if_pos idle] at hm
          exact ih at_ start h m hm
        · rename_i idle
          rw [if_neg idle] at hm
          split at h
          · rename_i up
            rw [if_pos up] at hm
            exact ih _ (t.contains_dropLast closed at_ start) h m hm
          · rename_i up
            rw [if_neg up] at hm
            split at h
            · cases h
            · split at h
              · rename_i there
                exact ih _ there h m hm
              · cases h

theorem mem_stations_of_walkTo? (t : FileTree) (at_ l : Location) (segments : List String)
    (h : t.walkTo? at_ segments = some l) : l ∈ stations at_ segments := by
  induction segments generalizing at_ with
  | nil => exact List.mem_singleton.mpr (Option.some.inj h).symm
  | cons s rest ih =>
    simp only [walkTo?] at h
    simp only [stations]
    split at h
    · cases h
    split at h
    · rename_i idle
      rw [if_pos idle]
      exact List.mem_cons_of_mem _ (ih _ h)
    rename_i idle
    rw [if_neg idle]
    split at h
    · rename_i up
      rw [if_pos up]
      exact List.mem_cons_of_mem _ (ih _ h)
    rename_i up
    rw [if_neg up]
    split at h
    · cases h
    split at h
    · exact List.mem_cons_of_mem _ (ih _ h)
    · cases h

theorem isDirectory_of_mem_stations (t : FileTree) (at_ l m : Location) (segments : List String)
    (h : t.walkTo? at_ segments = some l) (ends : t.isDirectory l = true)
    (hm : m ∈ stations at_ segments) : t.isDirectory m = true := by
  induction segments generalizing at_ with
  | nil =>
    have here : m = at_ := List.mem_singleton.mp hm
    have there : at_ = l := Option.some.inj h
    rwa [here, there]
  | cons s rest ih =>
    simp only [walkTo?] at h
    simp only [stations, List.mem_cons] at hm
    split at h
    · cases h
    rename_i directory
    rcases hm with rfl | later
    · simpa using directory
    split at h
    · rename_i idle
      rw [if_pos idle] at later
      exact ih _ h later
    rename_i idle
    rw [if_neg idle] at later
    split at h
    · rename_i up
      rw [if_pos up] at later
      exact ih _ h later
    rename_i up
    rw [if_neg up] at later
    split at h
    · cases h
    split at h
    · exact ih _ h later
    · cases h

theorem walkTo?_of_kept (t u : FileTree) (closed : t.IsClosed) (at_ l : Location)
    (segments : List String) (start : t.contains at_ = true)
    (h : t.walkTo? at_ segments = some l)
    (kept : ∀ m ∈ stations at_ segments, t.contains m = true → u.get? m = t.get? m) :
    u.walkTo? at_ segments = some l := by
  rw [← h]
  apply walkTo?_congr
  intro m hm
  exact kept m hm (t.contains_of_walkTo? closed at_ l segments start h m hm)

theorem walkTo?_names (t : FileTree) (at_ : Location) (names : List String)
    (named : ∀ s ∈ names, IsEntryName s ∧ s.utf8ByteSize ≤ Place.maxNameSize)
    (closed : t.IsClosed) (h : t.contains (at_ ++ names) = true) :
    t.walkTo? at_ names = some (at_ ++ names) := by
  induction names generalizing at_ with
  | nil => simp [walkTo?]
  | cons s rest ih =>
    have along : at_ ++ s :: rest = at_ ++ [s] ++ rest := by simp
    rw [along] at h ⊢
    have there := t.contains_above closed _ (at_ ++ [s]) h (List.prefix_append _ _)
    have directory := t.isDirectory_of_contains closed at_ s there
    obtain ⟨hs, size⟩ := named s (List.mem_cons_self ..)
    have moving : Path.isIdle s = false := by
      simp [Path.isIdle, hs.filled, hs.notCurrent]
    rw [walkTo?, directory, moving, if_neg hs.notParent, if_neg (Nat.not_lt_of_le size), there]
    exact ih (at_ ++ [s]) (fun x hx => named x (List.mem_cons_of_mem _ hx)) h

theorem mem_stations_above (at_ l m : Location) (segments : List String)
    (h : l ∈ stations at_ segments) (hm : m <+: l) : m <+: at_ ∨ m ∈ stations at_ segments := by
  induction segments generalizing at_ with
  | nil =>
    rw [List.mem_singleton.mp h] at hm
    exact .inl hm
  | cons s rest ih =>
    rw [stations] at h ⊢
    rcases List.mem_cons.mp h with rfl | later
    · exact .inl hm
    · split at later
      · rename_i idle
        rw [if_pos idle]
        exact (ih at_ later).imp_right (List.mem_cons_of_mem _)
      · rename_i idle
        rw [if_neg idle]
        split at later
        · rename_i up
          rw [if_pos up]
          rcases ih _ later with above | there
          · exact .inl (above.trans (List.dropLast_prefix _))
          · exact .inr (List.mem_cons_of_mem _ there)
        · rename_i up
          rw [if_neg up]
          rcases ih _ later with above | there
          · rcases List.prefix_concat_iff.mp above with rfl | above
            · exact .inr (List.mem_cons_of_mem _ (mem_stations_self _ _))
            · exact .inl above
          · exact .inr (List.mem_cons_of_mem _ there)

theorem prefix_of_mem_stations (t : FileTree) (at_ l m : Location) (segments : List String)
    (down : ".." ∉ segments) (h : t.walkTo? at_ segments = some l)
    (hm : m ∈ stations at_ segments) : m <+: l := by
  induction segments generalizing at_ m with
  | nil =>
    have here : m = at_ := List.mem_singleton.mp hm
    have there : at_ = l := Option.some.inj h
    exact here.trans there ▸ List.prefix_refl m
  | cons s rest ih =>
    obtain ⟨notUp, downRest⟩ := List.ne_and_not_mem_of_not_mem_cons down
    simp only [walkTo?, if_neg notUp.symm] at h
    simp only [stations, if_neg notUp.symm, List.mem_cons] at hm
    split at h
    · cases h
    · split at h
      · rename_i idle
        rw [if_pos idle] at hm
        rcases hm with rfl | later
        · exact ih m m downRest h (mem_stations_self m rest)
        · exact ih at_ m downRest h later
      · rename_i idle
        rw [if_neg idle] at hm
        split at h
        · cases h
        · split at h
          · rcases hm with rfl | later
            · exact (List.prefix_append m [s]).trans
                (ih (m ++ [s]) (m ++ [s]) downRest h (mem_stations_self _ rest))
            · exact ih (at_ ++ [s]) m downRest h later
          · cases h

theorem stations_append_idle (at_ : Location) (segments : List String) (s : String)
    (hs : Path.isIdle s = true) (l : Location) :
    l ∈ stations at_ (segments ++ [s]) ↔ l ∈ stations at_ segments := by
  induction segments generalizing at_ with
  | nil => simp [stations, hs]
  | cons first rest ih =>
    rw [List.cons_append, stations, stations, List.mem_cons, List.mem_cons]
    split
    · rw [ih]
    · split
      · rw [ih]
      · rw [ih]

end FileTree

namespace Place

open FileTree

theorem walkWith_eq_ok_iff (t : FileTree) (h : t.HasNoLinks) (follow : Bool)
    (onLink : Location → List String → Except FileError Place) (at_ l : Location)
    (segments : List String) :
    walkWith t follow onLink at_ segments = .ok (.entry l) ↔ t.walkTo? at_ segments = some l := by
  induction segments generalizing at_ with
  | nil => simp [walkWith, walkTo?]
  | cons s rest ih =>
    simp only [walkWith, walkTo?]
    split
    · simp
    · split
      · exact ih at_
      · split
        · exact ih at_.dropLast
        · split
          · simp
          · cases hn : t.get? (at_ ++ [s]) with
            | none =>
              simp only [contains, hn]
              split <;> simp
            | some n =>
              have named : at_ ++ [s] ≠ [] := by simp
              have plain := h _ ((t.get?_eq_some_iff _ named n).mp hn)
              simp only [contains, hn, Option.isSome_some, if_true]
              cases n with
              | link target => cases plain
              | file content => exact ih (at_ ++ [s])
              | directory => exact ih (at_ ++ [s])

theorem walk_eq_ok_iff (t : FileTree) (h : t.HasNoLinks) (follow : Bool) (links : Nat)
    (at_ l : Location) (segments : List String) :
    walk t follow links at_ segments = .ok (.entry l) ↔ t.walkTo? at_ segments = some l := by
  cases links with
  | zero => exact walkWith_eq_ok_iff t h follow _ at_ l segments
  | succ links => exact walkWith_eq_ok_iff t h follow _ at_ l segments

theorem locate_eq_ok_iff (t : FileTree) (h : t.HasNoLinks) (follow : Bool) (p : Path)
    (l : Location) :
    locate t follow p = .ok l ↔ checkText p = .ok () ∧ t.walkTo? [] p.segments = some l := by
  rw [← walk_eq_ok_iff t h follow maxLinks]
  unfold locate ofPath
  cases hc : checkText p with
  | error e => simp [bind, Except.bind]
  | ok u =>
    cases hw : walk t follow maxLinks [] p.segments with
    | error e => simp [bind, Except.bind]
    | ok place =>
      cases place with
      | entry m => simp [bind, Except.bind, pure, Except.pure]
      | free parent name => simp [bind, Except.bind, throw, throwThe, MonadExceptOf.throw]

end Place

namespace LastName

theorem endsInSlash_of_hasNoLinks (t : FileTree) (h : t.HasNoLinks) (links : Nat)
    (last : LastName) : last.endsInSlash t links = last.hasSlash := by
  cases links with
  | zero => rfl
  | succ links =>
    rw [endsInSlash]
    split
    · rename_i target found
      exact absurd found (h.get?_ne_link _ target)
    · exact Bool.or_false _

theorem ofPath_named (t : FileTree) (front slashes : List String) (name : String)
    (named : IsEntryName name) (allEmpty : ∀ s ∈ slashes, s = "")
    (asked : Place.checkText ⟨front ++ name :: slashes⟩ = .ok ()) :
    ofPath t ⟨front ++ name :: slashes⟩ =
      match Place.walk t true Place.maxLinks [] front with
      | .error e => .error e
      | .ok (.free ..) => .error .noEntry
      | .ok (.entry parent) =>
        if !t.isDirectory parent then .error .notDirectory
        else if name.utf8ByteSize > Place.maxNameSize then .error .nameTooLong
        else .ok (some ⟨parent, name, (front ++ name :: slashes).getLast? = some ""⟩) := by
  have trimmed : ((front ++ name :: slashes).reverse.dropWhile (· = "")).reverse =
      front ++ [name] := by
    have allEmpty' : ∀ s ∈ slashes.reverse, decide (s = "") = true := by simpa using allEmpty
    rw [List.reverse_append, List.reverse_cons, List.append_assoc,
      List.dropWhile_append_of_pos allEmpty']
    simp [named.filled]
  have noDots : ¬ (name = "." ∨ name = "..") := by
    simp [named.notCurrent, named.notParent]
  unfold ofPath
  simp only [asked, trimmed, List.getLast?_concat, List.dropLast_concat, bind, Except.bind]
  cases Place.walk t true Place.maxLinks [] front with
  | error e => rfl
  | ok place =>
    cases place with
    | free at_ s => rfl
    | entry at_ =>
      simp only [if_neg noDots]
      rfl

theorem ofPath_of_walkTo? (t : FileTree) (h : t.HasNoLinks) (front : List String) (name : String)
    (named : IsEntryName name) (parent : Location)
    (text : Place.checkText ⟨front ++ [name]⟩ = .ok ())
    (walked : t.walkTo? [] front = some parent) (directory : t.isDirectory parent = true)
    (size : name.utf8ByteSize ≤ Place.maxNameSize) :
    ofPath t ⟨front ++ [name]⟩ = .ok (some ⟨parent, name, false⟩) := by
  have reached := (Place.walk_eq_ok_iff t h true Place.maxLinks [] parent front).mpr walked
  rw [ofPath_named t front [] name named (by simp) text, reached]
  simp [directory, Nat.not_lt_of_le size, named.filled]

theorem ofPath_error (t : FileTree) (h : t.HasNoLinks) (front : List String) (name : String)
    (named : IsEntryName name)
    (lost : Place.checkText ⟨front ++ [name]⟩ ≠ .ok () ∨ t.walkTo? [] front = none) :
    ∃ e, ofPath t ⟨front ++ [name]⟩ = .error e := by
  cases asked : Place.checkText ⟨front ++ [name]⟩ with
  | error e =>
    refine ⟨e, ?_⟩
    unfold ofPath
    rw [asked]
    rfl
  | ok u =>
    rw [ofPath_named t front [] name named (by simp) asked]
    cases hw : Place.walk t true Place.maxLinks [] front with
    | error e => exact ⟨e, rfl⟩
    | ok place =>
      cases place with
      | free parent name => exact ⟨.noEntry, rfl⟩
      | entry parent =>
        have walked := (Place.walk_eq_ok_iff t h true Place.maxLinks [] parent front).mp hw
        rcases lost with bad | none
        · exact absurd asked bad
        · rw [none] at walked
          cases walked

end LastName
end SimpleFiles
