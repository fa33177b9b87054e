import SimpleFiles.Proofs.FileSystem.Leading
import SimpleFiles.Proofs.FileTree.Placing

/-! How a path ends, in any tree, links included: in a name within a directory, or in a
directory itself. What is put where a path ends is where the path leads. -/
namespace SimpleFiles

namespace Place

open FileTree

section
variable {t u : FileTree}

theorem Leads.walk_append {links : Nat} {at_ l : Location} {first : List String}
    (h : Leads t true links at_ first l) (follow : Bool) (rest : List String) (hr : rest ≠ []) :
    ∃ fewer, Place.walk t follow links at_ (first ++ rest) = Place.walk t follow fewer l rest := by
  generalize hf : true = followed at h
  induction h with
  | here links at_ => exact ⟨links, rfl⟩
  | idle directory stays _ ih =>
    obtain ⟨fewer, walked⟩ := ih
    exact ⟨fewer, by simp [walk_cons, directory, stays, walked]⟩
  | up directory _ ih =>
    obtain ⟨fewer, walked⟩ := ih
    exact ⟨fewer, by simp [walk_cons, directory, Path.isIdle, walked]⟩
  | @down links at_ _ s _ n directory named notUp short found noLink _ ih =>
    obtain ⟨fewer, walked⟩ := ih
    refine ⟨fewer, ?_⟩
    rw [List.cons_append, walk_cons, directory, named, if_neg notUp,
      if_neg (Nat.not_lt_of_le short), found]
    cases n with
    | link target => cases noLink
    | file content => exact walked
    | directory => exact walked
  | last directory named notUp short found unfollowed => cases hf.trans unfollowed
  | through directory named notUp short found _ _ ih =>
    obtain ⟨fewer, walked⟩ := ih
    refine ⟨fewer, ?_⟩
    rw [List.cons_append, walk_cons, directory, named, if_neg notUp,
      if_neg (Nat.not_lt_of_le short), found]
    simp only [Bool.not_true, Bool.false_eq_true, if_false, List.append_eq_nil_iff, hr, and_false,
      false_and]
    rw [← walked, List.append_assoc]

theorem Leads.of_append {follow : Bool} {links : Nat} {at_ l : Location}
    {first rest : List String} (h : Leads t follow links at_ (first ++ rest) l) (more : rest ≠ []) :
    ∃ m, Leads t true links at_ first m := by
  generalize hs : first ++ rest = segments at h
  induction h generalizing first with
  | here links at_ => exact absurd (List.append_eq_nil_iff.mp hs).2 more
  | idle directory stays _ ih =>
    rcases first with _ | ⟨x, first⟩
    · exact ⟨_, .here _ _⟩
    · obtain ⟨rfl, same⟩ := List.cons.inj hs
      obtain ⟨m, leads⟩ := ih same
      exact ⟨m, .idle directory stays leads⟩
  | up directory _ ih =>
    rcases first with _ | ⟨x, first⟩
    · exact ⟨_, .here _ _⟩
    · obtain ⟨rfl, same⟩ := List.cons.inj hs
      obtain ⟨m, leads⟩ := ih same
      exact ⟨m, .up directory leads⟩
  | down directory named notUp short found noLink _ ih =>
    rcases first with _ | ⟨x, first⟩
    · exact ⟨_, .here _ _⟩
    · obtain ⟨rfl, same⟩ := List.cons.inj hs
      obtain ⟨m, leads⟩ := ih same
      exact ⟨m, .down directory named notUp short found noLink leads⟩
  | last directory named notUp short found unfollowed =>
    rcases first with _ | ⟨x, first⟩
    · exact ⟨_, .here _ _⟩
    · obtain ⟨-, same⟩ := List.cons.inj hs
      exact absurd (List.append_eq_nil_iff.mp same).2 more
  | through directory named notUp short found followed _ ih =>
    rcases first with _ | ⟨x, first⟩
    · exact ⟨_, .here _ _⟩
    · obtain ⟨rfl, rfl⟩ := List.cons.inj hs
      obtain ⟨m, leads⟩ := ih (List.append_assoc ..)
      exact ⟨m, .through directory named notUp short found (by simp) leads⟩

theorem walk_idle (follow : Bool) (links : Nat) (at_ : Location) (idle : List String)
    (directory : t.isDirectory at_ = true) (allIdle : ∀ s ∈ idle, Path.isIdle s = true) :
    walk t follow links at_ idle = .ok (.entry at_) := by
  induction idle with
  | nil => cases links <;> rfl
  | cons s rest ih =>
    rw [walk_cons, directory, if_pos (allIdle s (List.mem_cons_self ..))]
    exact ih fun x hx => allIdle x (List.mem_cons_of_mem _ hx)

theorem Leads.append_idle {links : Nat} {at_ l : Location} {first idle : List String}
    (h : Leads t true links at_ first l) (directory : t.isDirectory l = true)
    (allIdle : ∀ s ∈ idle, Path.isIdle s = true) : Leads t true links at_ (first ++ idle) l := by
  by_cases none : idle = []
  · rwa [none, List.append_nil]
  · obtain ⟨fewer, walked⟩ := h.walk_append true idle none
    rw [walk_idle true fewer l idle directory allIdle] at walked
    exact leads_of_walk links at_ l _ walked

theorem walk_of_insert (links : Nat) (at_ parent : Location) (name : String)
    (segments : List String) (n : Node) (noLink : n.isLink = false)
    (h : walk t true links at_ segments = .ok (.free parent name)) :
    walk (t.insert (parent ++ [name]) n) true links at_ segments =
      .ok (.entry (parent ++ [name])) := by
  have free := (free_of_walk links at_ parent name segments h).2
  have filled : parent ++ [name] ≠ [] := by simp
  have grown : t.Grows (fun _ => False) (t.insert (parent ++ [name]) n) :=
    grows_insert t _ n free
  have kept : ∀ l k, t.get? l = some k → (t.insert (parent ++ [name]) n).get? l = some k :=
    fun l k hk => (grown l k hk).resolve_right fun changed => changed.1
  induction links using Nat.strongRecOn generalizing at_ segments with
  | _ links fewerLinks =>
    induction segments generalizing at_ with
    | nil => cases links <;> cases h
    | cons s rest ih =>
      rw [walk_cons] at h ⊢
      split at h
      · cases h
      rename_i directory
      rw [Bool.not_eq_true, Bool.not_eq_false'] at directory
      rw [grown.isDirectory_of at_ directory, Bool.not_true, if_neg Bool.false_ne_true]
      split at h
      · rename_i idle
        rw [if_pos idle]
        exact ih _ h
      rename_i idle
      rw [if_neg idle]
      split at h
      · rename_i up
        rw [if_pos up]
        exact ih _ h
      rename_i up
      rw [if_neg up]
      split at h
      · cases h
      rename_i short
      rw [if_neg short]
      split at h
      · split at h
        · rename_i last
          cases h
          rw [get?_insert _ _ filled, if_pos rfl, last]
          cases n with
          | link target => cases noLink
          | file content => cases links <;> rfl
          | directory => cases links <;> rfl
        · cases h
      · rename_i target found
        rw [kept _ _ found]
        simp only [Bool.not_true, Bool.false_eq_true, and_false, if_false] at h ⊢
        split at h
        · cases h
        · exact fewerLinks _ (Nat.lt_succ_self _) _ _ h
      · rename_i k noLinkHere found
        rw [kept _ _ found]
        cases k with
        | link target => exact absurd rfl (noLinkHere target)
        | file content => exact ih _ h
        | directory => exact ih _ h

theorem ofPath_of_insert (p : Path) (parent : Location) (name : String) (n : Node)
    (noLink : n.isLink = false) (h : ofPath t true p = .ok (.free parent name)) :
    ofPath (t.insert (parent ++ [name]) n) true p = .ok (.entry (parent ++ [name])) := by
  unfold ofPath at h ⊢
  cases hc : checkText p with
  | error e => simp [hc, bind, Except.bind] at h
  | ok u =>
    simp only [hc, bind, Except.bind] at h
    exact walk_of_insert maxLinks [] parent name p.segments n noLink h

theorem walk_ne_entryExists {follow : Bool} (links : Nat) (at_ : Location)
    (segments : List String) : walk t follow links at_ segments ≠ .error .entryExists := by
  induction links using Nat.strongRecOn generalizing at_ segments with
  | _ links fewerLinks =>
    induction segments generalizing at_ with
    | nil => cases links <;> exact nofun
    | cons s rest ih =>
      rw [walk_cons]
      split
      · exact nofun
      split
      · exact ih _
      split
      · exact ih _
      split
      · exact nofun
      split
      · split <;> exact nofun
      · split
        · exact nofun
        · split
          · exact nofun
          · exact fewerLinks _ (Nat.lt_succ_self _) _ _
      · exact ih _

end
end Place

namespace LastName

open Place FileTree

variable {t u : FileTree} {p : Path} {last : LastName}

theorem checkText_of_ofPath {found : Option LastName} (h : ofPath t p = .ok found) :
    checkText p = .ok () := by
  unfold ofPath at h
  cases hc : checkText p with
  | ok u => rfl
  | error e => simp [hc, bind, Except.bind] at h

theorem hasSlash_of_ofPath (h : ofPath t p = .ok (some last)) :
    last.hasSlash = decide (p.segments.getLast? = some "") := by
  unfold ofPath at h
  simp only [bind, Except.bind, pure, Except.pure, throw, throwThe, MonadExceptOf.throw] at h
  repeat' split at h
  all_goals first
    | cases h; rfl
    | cases h

/-- A path ends in a name, slashes aside, within a directory that is there. -/
structure Ends (t : FileTree) (p : Path) (last : LastName) (front slashes : List String) :
    Prop where
  asked : checkText p = .ok ()
  split : p.segments = front ++ last.name :: slashes
  allEmpty : ∀ s ∈ slashes, s = ""
  leads : Leads t true maxLinks [] front last.parent
  directory : t.isDirectory last.parent = true
  named : Path.isIdle last.name = false
  notUp : last.name ≠ ".."
  short : last.name.utf8ByteSize ≤ maxNameSize
  bare : last.hasSlash = false → slashes = []

theorem exists_ends (h : ofPath t p = .ok (some last)) :
    ∃ front slashes, Ends t p last front slashes := by
  obtain ⟨front, slashes, split, allEmpty, leads, directory, named, notUp, short⟩ := of_ofPath h
  refine ⟨front, slashes, checkText_of_ofPath h, split, allEmpty, leads, directory, named, notUp,
    short, ?_⟩
  intro noSlash
  rw [hasSlash_of_ofPath h, decide_eq_false_iff_not, split] at noSlash
  rcases List.eq_nil_or_concat' slashes with rfl | ⟨more, s, rfl⟩
  · rfl
  · have ends : s = "" := allEmpty s (by simp)
    rw [← List.cons_append, ← List.append_assoc, List.getLast?_concat, ends] at noSlash
    exact absurd rfl noSlash

namespace Ends

variable {front slashes : List String}

theorem allIdle (h : Ends t p last front slashes) : ∀ s ∈ slashes, Path.isIdle s = true := by
  intro s hs
  rw [h.allEmpty s hs]
  rfl

theorem ofPath_bare (h : Ends t p last front []) (follow : Bool) :
    ∃ fewer, Place.ofPath t follow p = walk t follow fewer last.parent [last.name] := by
  obtain ⟨fewer, walked⟩ := h.leads.walk_append follow [last.name] (List.cons_ne_nil _ _)
  refine ⟨fewer, ?_⟩
  unfold Place.ofPath
  rw [h.asked, h.split]
  exact walked

theorem walk_name (h : Ends t p last front slashes) (follow : Bool) (links : Nat)
    (rest : List String) :
    walk t follow links last.parent (last.name :: rest) =
      match t.get? last.location with
      | none => if rest = [] then .ok (.free last.parent last.name) else .error .noEntry
      | some (.link target) =>
        if rest = [] ∧ !follow then .ok (.entry last.location)
        else
          match links with
          | 0 => .error .tooManyLinks
          | fewer + 1 => walk t follow fewer (linkStart (.ofText target) last.parent)
            ((Path.ofText target).segments ++ rest)
      | some _ => walk t follow links last.location rest := by
  rw [walk_cons, h.directory, h.named, if_neg h.notUp, if_neg (Nat.not_lt_of_le h.short)]
  rfl

theorem locate_of_insert (h : Ends t p last front slashes) (free : t.get? last.location = none)
    (n : Node) (noLink : n.isLink = false)
    (fits : n.isDirectory = true ∨ last.hasSlash = false) :
    locate (t.insert last.location n) true p = .ok last.location := by
  have filled : last.location ≠ [] := by simp [location]
  have grown : t.Grows (fun _ => False) (t.insert last.location n) :=
    grows_insert t _ n free
  have directory := grown.isDirectory_of _ h.directory
  have found : (t.insert last.location n).get? last.location = some n := by
    rw [get?_insert t _ filled, if_pos rfl]
  rw [locate_iff_leads]
  refine ⟨h.asked, ?_⟩
  have reached : Leads (t.insert last.location n) true maxLinks [] (front ++ [last.name])
      last.location := by
    obtain ⟨fewer, walked⟩ :=
      (h.leads.grows grown).walk_append true [last.name] (List.cons_ne_nil _ _)
    apply leads_of_walk
    rw [walked]
    exact (Leads.down directory h.named h.notUp h.short found noLink (.here fewer _)).walk
  have along : p.segments = front ++ [last.name] ++ slashes := by simp [h.split]
  rw [along]
  rcases fits with made | noSlash
  · refine reached.append_idle ?_ h.allIdle
    rw [FileTree.isDirectory, found]
    exact made
  · rwa [h.bare noSlash, List.append_nil]

end Ends

theorem ofPath_of_grows {changed : Location → Prop} {found : Option LastName}
    (grown : t.Grows changed u) (h : ofPath t p = .ok found) : ofPath u p = .ok found := by
  unfold ofPath at h ⊢
  generalize (p.segments.reverse.dropWhile (· = "")).reverse = segments at h ⊢
  cases asked : checkText p with
  | error e => simp [asked, bind, Except.bind] at h
  | ok _ =>
    simp only [asked, bind, Except.bind] at h ⊢
    split at h
    · exact h
    · rename_i name ends
      split at h
      · cases h
      rename_i place reached
      cases place with
      | free parent name => cases h
      | entry parent =>
        rw [((leads_of_walk _ _ _ _ reached).grows grown).walk]
        simp only at h ⊢
        split at h
        · cases h
        rename_i directory
        rw [Bool.not_eq_true, Bool.not_eq_false'] at directory
        rw [grown.isDirectory_of parent directory]
        exact h

theorem exists_of_locate {l : Location} (h : locate t true p = .ok l) :
    ∃ found, ofPath t p = .ok found ∧ ∀ last ∈ found, t.contains last.location = true := by
  obtain ⟨asked, leads⟩ := (locate_iff_leads p l).mp h
  obtain ⟨slashes, split, allEmpty⟩ := exists_slashes p.segments
  have ends := List.head?_dropWhile_not (· = "") p.segments.reverse
  rw [← List.getLast?_reverse] at ends
  unfold ofPath
  generalize (p.segments.reverse.dropWhile (· = "")).reverse = segments at split ends ⊢
  simp only [asked, bind, Except.bind]
  cases hl : segments.getLast? with
  | none => exact ⟨none, rfl, nofun⟩
  | some name =>
    obtain ⟨front, rfl⟩ := List.getLast?_eq_some_iff.mp hl
    rw [split, List.append_assoc, List.singleton_append] at leads
    obtain ⟨parent, before⟩ := leads.of_append (List.cons_ne_nil _ _)
    obtain ⟨fewer, walked⟩ := before.walk_append true (name :: slashes) (List.cons_ne_nil _ _)
    rw [leads.walk, walk_cons] at walked
    split at walked
    · cases walked
    rename_i directory
    simp only [List.dropLast_concat, before.walk, if_neg directory]
    by_cases dots : name = "." ∨ name = ".."
    · exact ⟨none, by rw [if_pos dots]; rfl, nofun⟩
    · have filled : name ≠ "" := by
        rw [hl] at ends
        simpa using ends
      obtain ⟨notDot, notUp⟩ := not_or.mp dots
      have moves : Path.isIdle name = false := by simp [Path.isIdle, filled, notDot]
      rw [moves, if_neg Bool.false_ne_true, if_neg notUp] at walked
      split at walked
      · cases walked
      rename_i short
      refine ⟨_, by rw [if_neg dots, if_neg short]; rfl, ?_⟩
      rintro last ⟨⟩
      rw [contains_iff]
      split at walked
      · split at walked <;> cases walked
      · exact ⟨_, by assumption⟩
      · exact ⟨_, by assumption⟩

theorem exists_locate_of_none (closed : t.IsClosed) (follow : Bool) (h : ofPath t p = .ok none) :
    ∃ l, locate t follow p = .ok l := by
  have asked := checkText_of_ofPath h
  obtain ⟨slashes, split, allEmpty⟩ := exists_slashes p.segments
  have allIdle : ∀ s ∈ slashes, Path.isIdle s = true := by
    intro s hs
    rw [allEmpty s hs]
    rfl
  suffices walked : ∃ l, walk t follow maxLinks [] p.segments = .ok (.entry l) by
    obtain ⟨l, walked⟩ := walked
    exact ⟨l, (locate_iff_leads p l).mpr ⟨asked, leads_of_walk maxLinks [] l _ walked⟩⟩
  unfold ofPath at h
  generalize (p.segments.reverse.dropWhile (· = "")).reverse = segments at h split
  cases hl : segments.getLast? with
  | none =>
    rw [split, List.getLast?_eq_none_iff.mp hl, List.nil_append]
    exact ⟨[], walk_idle follow maxLinks [] slashes rfl allIdle⟩
  | some name =>
    obtain ⟨front, rfl⟩ := List.getLast?_eq_some_iff.mp hl
    simp only [asked, hl, bind, Except.bind, List.dropLast_concat] at h
    cases hw : Place.walk t true maxLinks [] front with
    | error e => simp [hw] at h
    | ok place =>
      cases place with
      | free parent name => simp [hw, throw, throwThe, MonadExceptOf.throw] at h
      | entry parent =>
        have reached := leads_of_walk maxLinks [] parent front hw
        simp only [hw] at h
        split at h
        · cases h
        rename_i directory
        rw [Bool.not_eq_true, Bool.not_eq_false'] at directory
        split at h
        · rename_i dots
          obtain ⟨fewer, walked⟩ :=
            reached.walk_append follow (name :: slashes) (List.cons_ne_nil _ _)
          rw [split, List.append_assoc, List.singleton_append, walked]
          rcases dots with rfl | rfl
          · exact ⟨parent, walk_idle follow fewer parent _ directory
              (List.forall_mem_cons.mpr ⟨rfl, allIdle⟩)⟩
          · refine ⟨parent.dropLast, ?_⟩
            rw [walk_cons, directory]
            exact walk_idle follow fewer _ slashes (closed.isDirectory_dropLast parent directory)
              allIdle
        · split at h
          · cases h
          · cases h

theorem ofPath_ne_entryExists (p : Path) : ofPath t p ≠ .error .entryExists := by
  intro h
  unfold ofPath at h
  simp only [bind, Except.bind, pure, Except.pure, throw, throwThe, MonadExceptOf.throw] at h
  split at h
  · rename_i failed
    cases h
    unfold checkText at failed
    repeat' split at failed
    all_goals cases failed
  split at h
  · cases h
  split at h
  · rename_i failed
    cases h
    exact walk_ne_entryExists _ _ _ failed
  repeat' split at h
  all_goals cases h

end LastName
end SimpleFiles
