import Mathlib.Data.List.Basic
import SimpleFiles.FileSystem.Resolve
import SimpleFiles.Proofs.FileTree.Growth

/-! Where segments lead, links and all, as a relation beside the walk that finds it. What a
path leads to, it goes on leading to when the tree grows. -/
namespace SimpleFiles.Place

open FileTree

/-- From a directory, segments lead to an entry through at most so many links. -/
inductive Leads (t : FileTree) (follow : Bool) : Nat → Location → List String → Location → Prop
  | here (links : Nat) (at_ : Location) : Leads t follow links at_ [] at_
  | idle {links : Nat} {at_ l : Location} {s : String} {rest : List String}
    (directory : t.isDirectory at_ = true) (stays : Path.isIdle s = true)
    (later : Leads t follow links at_ rest l) : Leads t follow links at_ (s :: rest) l
  | up {links : Nat} {at_ l : Location} {rest : List String}
    (directory : t.isDirectory at_ = true)
    (later : Leads t follow links at_.dropLast rest l) : Leads t follow links at_ (".." :: rest) l
  | down {links : Nat} {at_ l : Location} {s : String} {rest : List String} {n : Node}
    (directory : t.isDirectory at_ = true) (named : Path.isIdle s = false) (notUp : s ≠ "..")
    (short : s.utf8ByteSize ≤ maxNameSize) (found : t.get? (at_ ++ [s]) = some n)
    (noLink : n.isLink = false) (later : Leads t follow links (at_ ++ [s]) rest l) :
    Leads t follow links at_ (s :: rest) l
  | last {links : Nat} {at_ : Location} {s target : String}
    (directory : t.isDirectory at_ = true) (named : Path.isIdle s = false) (notUp : s ≠ "..")
    (short : s.utf8ByteSize ≤ maxNameSize) (found : t.get? (at_ ++ [s]) = some (.link target))
    (unfollowed : follow = false) : Leads t follow links at_ [s] (at_ ++ [s])
  | through {links : Nat} {at_ l : Location} {s target : String} {rest : List String}
    (directory : t.isDirectory at_ = true) (named : Path.isIdle s = false) (notUp : s ≠ "..")
    (short : s.utf8ByteSize ≤ maxNameSize) (found : t.get? (at_ ++ [s]) = some (.link target))
    (followed : ¬ (rest = [] ∧ (!follow) = true))
    (later : Leads t follow links (linkStart (.ofText target) at_)
      ((Path.ofText target).segments ++ rest) l) :
    Leads t follow (links + 1) at_ (s :: rest) l

section
variable {t u : FileTree} {follow : Bool}

theorem leads_of_walkWith (links : Nat)
    (onLink : Location → List String → Except FileError Place)
    (linked : ∀ at_ segments l, onLink at_ segments = .ok (.entry l) →
      ∃ fewer, links = fewer + 1 ∧ Leads t follow fewer at_ segments l)
    (at_ l : Location) (segments : List String)
    (h : walkWith t follow onLink at_ segments = .ok (.entry l)) :
    Leads t follow links at_ segments l := by
  induction segments generalizing at_ with
  | nil =>
    cases h
    exact .here links _
  | cons s rest ih =>
    rw [walkWith] at h
    split at h
    · cases h
    rename_i directory
    rw [Bool.not_eq_true, Bool.not_eq_false'] at directory
    split at h
    · rename_i stays
      exact .idle directory stays (ih at_ h)
    rename_i named
    rw [Bool.not_eq_true] at named
    split at h
    · rename_i up
      subst up
      exact .up directory (ih _ h)
    rename_i notUp
    split at h
    · cases h
    rename_i short
    have size := Nat.le_of_not_lt short
    split at h
    · split at h
      · cases h
      · cases h
    · rename_i target found
      split at h
      · rename_i last
        obtain ⟨rfl, unfollowed⟩ := last
        cases h
        exact .last directory named notUp size found (by simpa using unfollowed)
      · rename_i followed
        obtain ⟨fewer, rfl, later⟩ := linked _ _ _ h
        exact .through directory named notUp size found followed later
    · rename_i n noLink found
      have plain : n.isLink = false := by
        cases n with
        | link target => exact absurd rfl (noLink target)
        | file content => rfl
        | directory => rfl
      exact .down directory named notUp size found plain (ih _ h)

theorem leads_of_walk (links : Nat) (at_ l : Location) (segments : List String)
    (h : walk t follow links at_ segments = .ok (.entry l)) :
    Leads t follow links at_ segments l := by
  induction links generalizing at_ l segments with
  | zero =>
    refine leads_of_walkWith 0 _ ?_ at_ l segments h
    intro _ _ _ none
    cases none
  | succ links ih =>
    refine leads_of_walkWith (links + 1) _ ?_ at_ l segments h
    exact fun a s m later => ⟨links, rfl, ih a m s later⟩

theorem walk_cons (links : Nat) (at_ : Location) (s : String) (rest : List String) :
    walk t follow links at_ (s :: rest) =
      if !t.isDirectory at_ then .error .notDirectory
      else if Path.isIdle s then walk t follow links at_ rest
      else if s = ".." then walk t follow links at_.dropLast rest
      else if s.utf8ByteSize > maxNameSize then .error .nameTooLong
      else
        match t.get? (at_ ++ [s]) with
        | none => if rest = [] then .ok (.free at_ s) else .error .noEntry
        | some (.link target) =>
          if rest = [] ∧ !follow then .ok (.entry (at_ ++ [s]))
          else
            match links with
            | 0 => .error .tooManyLinks
            | fewer + 1 => walk t follow fewer (linkStart (.ofText target) at_)
              ((Path.ofText target).segments ++ rest)
        | some _ => walk t follow links (at_ ++ [s]) rest := by
  cases links with
  | zero => rfl
  | succ links => rfl

theorem free_of_walk (links : Nat) (at_ parent : Location) (name : String)
    (segments : List String) (h : walk t follow links at_ segments = .ok (.free parent name)) :
    t.isDirectory parent = true ∧ t.get? (parent ++ [name]) = none := by
  induction links using Nat.strongRecOn generalizing at_ segments with
  | _ links fewerLinks =>
    induction segments generalizing at_ with
    | nil => cases links <;> cases h
    | cons s rest ih =>
      rw [walk_cons] at h
      split at h
      · cases h
      rename_i directory
      rw [Bool.not_eq_true, Bool.not_eq_false'] at directory
      split at h
      · exact ih _ h
      split at h
      · exact ih _ h
      split at h
      · cases h
      split at h
      · rename_i vacant
        split at h
        · cases h
          exact ⟨directory, vacant⟩
        · cases h
      · split at h
        · cases h
        · split at h
          · cases h
          · exact fewerLinks _ (Nat.lt_succ_self _) _ _ h
      · exact ih _ h

theorem Leads.walk {links : Nat} {at_ l : Location} {segments : List String}
    (h : Leads t follow links at_ segments l) :
    walk t follow links at_ segments = .ok (.entry l) := by
  induction h with
  | here links at_ => cases links with
    | zero => rfl
    | succ links => rfl
  | idle directory stays later ih => simp [walk_cons, directory, stays, ih]
  | up directory later ih => simp [walk_cons, directory, Path.isIdle, ih]
  | @down links at_ _ s rest n directory named notUp short found noLink later ih =>
    rw [walk_cons, directory, named, if_neg notUp, if_neg (Nat.not_lt_of_le short), found]
    cases n with
    | link target => cases noLink
    | file content => exact ih
    | directory => exact ih
  | last directory named notUp short found unfollowed =>
    simp [walk_cons, directory, named, notUp, Nat.not_lt_of_le short, found, unfollowed]
  | through directory named notUp short found followed later ih =>
    rw [walk_cons, directory, named, if_neg notUp, if_neg (Nat.not_lt_of_le short), found]
    simp only [Bool.not_true, Bool.false_eq_true, if_false, if_neg followed]
    exact ih

theorem walk_iff_leads (links : Nat) (at_ l : Location) (segments : List String) :
    Place.walk t follow links at_ segments = .ok (.entry l) ↔
      Leads t follow links at_ segments l :=
  ⟨leads_of_walk links at_ l segments, Leads.walk⟩

theorem Leads.unique {links : Nat} {at_ l m : Location} {segments : List String}
    (h : Leads t follow links at_ segments l) (h' : Leads t follow links at_ segments m) :
    l = m := by
  have same := h.walk.symm.trans h'.walk
  cases same
  rfl

theorem exists_of_append_idle {first idle rest : List String} {s : String}
    (allIdle : ∀ x ∈ idle, Path.isIdle x = true) (split : first ++ idle = s :: rest)
    (moves : Path.isIdle s = false) : ∃ more, first = s :: more ∧ more ++ idle = rest := by
  cases first with
  | nil =>
    have stays := allIdle s (by simp [show idle = s :: rest from split])
    rw [moves] at stays
    cases stays
  | cons x more =>
    obtain ⟨rfl, rfl⟩ := List.cons.inj split
    exact ⟨more, rfl, rfl⟩

theorem Leads.of_append_idle {links : Nat} {at_ l : Location} {first idle : List String}
    (h : Leads t true links at_ (first ++ idle) l) (allIdle : ∀ s ∈ idle, Path.isIdle s = true) :
    Leads t true links at_ first l := by
  generalize hs : first ++ idle = segments at h
  generalize hf : true = follow at h
  induction h generalizing first idle with
  | here links at_ =>
    obtain ⟨rfl, -⟩ := List.append_eq_nil_iff.mp hs
    exact .here links at_
  | @idle links at_ l s rest directory stays _ ih =>
    cases first with
    | nil =>
      have same : idle = s :: rest := hs
      have restIdle : ∀ x ∈ rest, Path.isIdle x = true := fun x hx =>
        allIdle x (same ▸ List.mem_cons_of_mem _ hx)
      exact ih restIdle (List.nil_append rest)
    | cons x first =>
      obtain ⟨rfl, rfl⟩ := List.cons.inj hs
      exact .idle directory stays (ih allIdle rfl)
  | up directory _ ih =>
    obtain ⟨more, rfl, rest⟩ := exists_of_append_idle allIdle hs (by decide)
    exact .up directory (ih allIdle rest)
  | down directory named notUp short found noLink _ ih =>
    obtain ⟨more, rfl, rest⟩ := exists_of_append_idle allIdle hs named
    exact .down directory named notUp short found noLink (ih allIdle rest)
  | last directory named notUp short found unfollowed =>
    cases hf.trans unfollowed
  | through directory named notUp short found followed _ ih =>
    obtain ⟨more, rfl, rfl⟩ := exists_of_append_idle allIdle hs named
    exact .through directory named notUp short found (by simp [← hf])
      (ih allIdle (List.append_assoc ..))

theorem free_of_ofPath (p : Path) (parent : Location) (name : String)
    (h : ofPath t follow p = .ok (.free parent name)) :
    t.isDirectory parent = true ∧ t.get? (parent ++ [name]) = none := by
  unfold ofPath at h
  cases hc : checkText p with
  | error e => simp [hc, bind, Except.bind] at h
  | ok u =>
    simp only [hc, bind, Except.bind] at h
    exact free_of_walk maxLinks [] parent name p.segments h

theorem locate_iff_ofPath (p : Path) (l : Location) :
    locate t follow p = .ok l ↔ ofPath t follow p = .ok (.entry l) := by
  unfold locate
  cases ofPath t follow p with
  | error e => simp [bind, Except.bind]
  | ok place =>
    cases place with
    | entry m => simp [bind, Except.bind, pure, Except.pure]
    | free parent name => simp [bind, Except.bind, throw, throwThe, MonadExceptOf.throw]

theorem locate_iff_leads (p : Path) (l : Location) :
    locate t follow p = .ok l ↔
      checkText p = .ok () ∧ Leads t follow maxLinks [] p.segments l := by
  rw [locate_iff_ofPath, ← walk_iff_leads, ofPath]
  cases checkText p with
  | error e => simp [bind, Except.bind]
  | ok u => simp [bind, Except.bind]

variable {changed : Location → Prop} (grown : Grows changed t u)

include grown in
theorem Leads.grows {links : Nat} {at_ l : Location} {segments : List String}
    (h : Leads t follow links at_ segments l) : Leads u follow links at_ segments l := by
  induction h with
  | here links at_ => exact .here links at_
  | idle directory stays _ ih => exact .idle (grown.isDirectory_of _ directory) stays ih
  | up directory _ ih => exact .up (grown.isDirectory_of _ directory) ih
  | down directory named notUp short found noLink _ ih =>
    have still := grown.isDirectory_of _ directory
    rcases grown _ _ found with same | ⟨-, -, new, -, found'⟩
    · exact .down still named notUp short same noLink ih
    · exact .down still named notUp short found' rfl ih
  | last directory named notUp short found unfollowed =>
    have still := grown.isDirectory_of _ directory
    exact .last still named notUp short (grown.get?_of_not_file _ _ found rfl) unfollowed
  | through directory named notUp short found followed _ ih =>
    have still := grown.isDirectory_of _ directory
    exact .through still named notUp short (grown.get?_of_not_file _ _ found rfl) followed ih

include grown in
theorem locate_of_grows (p : Path) (l : Location) (h : locate t follow p = .ok l) :
    locate u follow p = .ok l := by
  rw [locate_iff_leads] at h ⊢
  exact ⟨h.1, h.2.grows grown⟩

end
end SimpleFiles.Place

namespace SimpleFiles.LastName

open Place

theorem exists_slashes (segments : List String) :
    ∃ slashes, segments = (segments.reverse.dropWhile (· = "")).reverse ++ slashes ∧
      ∀ s ∈ slashes, s = "" := by
  refine ⟨(segments.reverse.takeWhile (· = "")).reverse, ?_, ?_⟩
  · rw [← List.reverse_append, List.takeWhile_append_dropWhile, List.reverse_reverse]
  · intro s hs
    simpa using List.all_eq_true.mp List.all_takeWhile s (List.mem_reverse.mp hs)

theorem of_ofPath {t : FileTree} {p : Path} {last : LastName} (h : ofPath t p = .ok (some last)) :
    ∃ front slashes, p.segments = front ++ last.name :: slashes ∧ (∀ s ∈ slashes, s = "") ∧
      Leads t true maxLinks [] front last.parent ∧ t.isDirectory last.parent = true ∧
      Path.isIdle last.name = false ∧ last.name ≠ ".." ∧
      last.name.utf8ByteSize ≤ maxNameSize := by
  obtain ⟨slashes, split, allEmpty⟩ := exists_slashes p.segments
  have ends := List.head?_dropWhile_not (· = "") p.segments.reverse
  rw [← List.getLast?_reverse] at ends
  unfold ofPath at h
  generalize (p.segments.reverse.dropWhile (· = "")).reverse = segments at h split ends
  cases hc : checkText p with
  | error e => simp [hc, bind, Except.bind] at h
  | ok u =>
    cases hl : segments.getLast? with
    | none => simp [hc, hl, bind, Except.bind, pure, Except.pure] at h
    | some name =>
      obtain ⟨front, hfront⟩ := List.getLast?_eq_some_iff.mp hl
      subst hfront
      simp only [hc, hl, bind, Except.bind, List.dropLast_concat] at h
      cases hw : Place.walk t true maxLinks [] front with
      | error e => simp [hw] at h
      | ok place =>
        cases place with
        | free parent name => simp [hw, throw, throwThe, MonadExceptOf.throw] at h
        | entry parent =>
          have reached := leads_of_walk maxLinks [] parent front hw
          simp only [hw] at h
          split at h
          · cases h
          rename_i directory
          rw [Bool.not_eq_true, Bool.not_eq_false'] at directory
          split at h
          · cases h
          rename_i noDots
          split at h
          · cases h
          rename_i short
          cases h
          have filled : name ≠ "" := by
            rw [hl] at ends
            simpa using ends
          have notDot : name ≠ "." := fun dot => noDots (.inl dot)
          have named : Path.isIdle name = false := by simp [Path.isIdle, filled, notDot]
          have notUp : name ≠ ".." := fun up => noDots (.inr up)
          exact ⟨front, slashes, by simpa using split, allEmpty, reached, directory, named, notUp,
            Nat.le_of_not_lt short⟩

theorem of_ofPath_concat {t : FileTree} {front : List String} {name : String} {last : LastName}
    (filled : name ≠ "") (h : ofPath t ⟨front ++ [name]⟩ = .ok (some last)) :
    last.name = name ∧ Leads t true maxLinks [] front last.parent := by
  obtain ⟨front', slashes, split, allEmpty, leads, -⟩ := of_ofPath h
  have split' : front ++ [name] = front' ++ last.name :: slashes := split
  rcases List.eq_nil_or_concat' slashes with rfl | ⟨more, s, rfl⟩
  · rw [List.append_inj_left' split' rfl]
    exact ⟨(List.cons.inj (List.append_inj_right' split' rfl)).1.symm, leads⟩
  · rw [← List.cons_append, ← List.append_assoc] at split'
    have ends : name = s := (List.cons.inj (List.append_inj_right' split' rfl)).1
    exact absurd (ends.trans (allEmpty s (by simp))) filled

end SimpleFiles.LastName
