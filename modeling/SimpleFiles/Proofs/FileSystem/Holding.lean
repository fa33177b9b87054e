import SimpleFiles.Proofs.FileSystem.Calls
import SimpleFiles.Proofs.Path.Steps

/-! Paths that name an entry, in any tree, links included: the directory of the last name is
there and has it. They are those that lead to an entry, perhaps a link that leads nowhere, and so
do other spellings of them. -/
namespace SimpleFiles

namespace Place

open FileTree

section
variable {t : FileTree}

theorem Leads.idle_append {follow : Bool} {links : Nat} {at_ l : Location} {rest : List String}
    (h : Leads t follow links at_ rest l) (directory : t.isDirectory at_ = true)
    (idle : List String) (allIdle : ∀ s ∈ idle, Path.isIdle s = true) :
    Leads t follow links at_ (idle ++ rest) l := by
  induction idle with
  | nil => exact h
  | cons s idle ih =>
    obtain ⟨stays, others⟩ := List.forall_mem_cons.mp allIdle
    exact .idle directory stays (ih others)

theorem exists_of_steps_cons {segments more : List String} {s : String}
    (h : Path.steps segments = s :: more) :
    ∃ idle rest, segments = idle ++ s :: rest ∧ (∀ x ∈ idle, Path.isIdle x = true) ∧
      Path.steps rest = more := by
  obtain ⟨idle, rest, split, allIdle, -, left⟩ := List.filter_eq_cons_iff.mp h
  exact ⟨idle, rest, split, by simpa using allIdle, left⟩

theorem Leads.respelled {links : Nat} {at_ l : Location} {segments others : List String}
    (h : Leads t true links at_ segments l) (same : Path.steps others = Path.steps segments)
    (ends : ∀ s ∈ others.getLast?, Path.isIdle s = false) : Leads t true links at_ others l := by
  have later : ∀ {idle rest : List String} {s : String},
      (∀ x ∈ (idle ++ s :: rest).getLast?, Path.isIdle x = false) →
        ∀ x ∈ rest.getLast?, Path.isIdle x = false := by
    intro idle rest s ends x hx
    refine ends x ?_
    obtain ⟨init, rfl⟩ := List.getLast?_eq_some_iff.mp hx
    rw [← List.cons_append, ← List.append_assoc, List.getLast?_concat]
    rfl
  induction h generalizing others with
  | here links at_ =>
    rcases List.eq_nil_or_concat' others with rfl | ⟨init, s, rfl⟩
    · exact .here _ _
    · have moves := ends s (by simp)
      have step : s ∈ Path.steps (init ++ [s]) := List.mem_filter.mpr ⟨by simp, by simp [moves]⟩
      rw [same] at step
      cases step
  | idle directory stays _ ih =>
    rw [Path.steps_cons_of_idle _ _ stays] at same
    exact ih same ends
  | up directory _ ih =>
    rw [Path.steps_cons_of_moving _ _ (by decide)] at same
    obtain ⟨idle, rest, rfl, allIdle, left⟩ := exists_of_steps_cons same
    exact (Leads.up directory (ih left (later ends))).idle_append directory idle allIdle
  | down directory named notUp short found noLink _ ih =>
    rw [Path.steps_cons_of_moving _ _ named] at same
    obtain ⟨idle, rest, rfl, allIdle, left⟩ := exists_of_steps_cons same
    exact (Leads.down directory named notUp short found noLink
      (ih left (later ends))).idle_append directory idle allIdle
  | last directory named notUp short found unfollowed => cases unfollowed
  | @through links at_ l s target rest directory named notUp short found followed on ih =>
    rw [Path.steps_cons_of_moving _ _ named] at same
    obtain ⟨idle, rest', rfl, allIdle, left⟩ := exists_of_steps_cons same
    refine (Leads.through directory named notUp short found (by simp) ?_).idle_append directory
      idle allIdle
    rcases List.eq_nil_or_concat' rest' with rfl | ⟨init, last, rfl⟩
    · have restIdle : ∀ x ∈ rest, Path.isIdle x = true := by
        simpa [Path.steps] using left.symm
      rw [List.append_nil]
      exact on.of_append_idle restIdle
    · refine ih ?_ ?_
      · rw [Path.steps_append _ (init ++ [last]), left, ← Path.steps_append]
      · intro x hx
        refine later ends x ?_
        rw [← List.append_assoc, List.getLast?_concat] at hx
        rwa [List.getLast?_concat]

theorem Leads.unfollowed {links : Nat} {at_ l : Location} {segments : List String}
    (h : Leads t true links at_ segments l) : ∃ m, Leads t false links at_ segments m := by
  induction h with
  | here links at_ => exact ⟨at_, .here links at_⟩
  | idle directory stays _ ih =>
    obtain ⟨m, leads⟩ := ih
    exact ⟨m, .idle directory stays leads⟩
  | up directory _ ih =>
    obtain ⟨m, leads⟩ := ih
    exact ⟨m, .up directory leads⟩
  | down directory named notUp short found noLink _ ih =>
    obtain ⟨m, leads⟩ := ih
    exact ⟨m, .down directory named notUp short found noLink leads⟩
  | last directory named notUp short found unfollowed => cases unfollowed
  | @through _ _ _ _ _ rest directory named notUp short found _ _ ih =>
    by_cases last : rest = []
    · subst last
      exact ⟨_, .last directory named notUp short found rfl⟩
    · obtain ⟨m, leads⟩ := ih
      exact ⟨m, .through directory named notUp short found (fun ends => last ends.1) leads⟩

theorem exists_locate_unfollowed {p : Path} {l : Location} (h : locate t true p = .ok l) :
    ∃ m, locate t false p = .ok m := by
  obtain ⟨asked, leads⟩ := (locate_iff_leads p l).mp h
  obtain ⟨m, unfollowed⟩ := leads.unfollowed
  exact ⟨m, (locate_iff_leads p m).mpr ⟨asked, unfollowed⟩⟩

end

end Place

namespace LastName

open Place FileTree

variable {t u : FileTree} {p : Path} {last : LastName} {front slashes : List String}

theorem Ends.ofPath (h : Ends t p last front slashes) (plain : p.IsPlain)
    (slash : last.hasSlash = decide (p.segments.getLast? = some "")) :
    LastName.ofPath t p = .ok (some last) := by
  have legal := p.isLegalName_of_mem plain h.asked last.name (by simp [h.split]) h.named h.notUp
    h.short
  obtain ⟨segments⟩ := p
  obtain rfl : segments = front ++ last.name :: slashes := h.split
  rw [ofPath_named t front slashes last.name legal.1 h.allEmpty h.asked, h.leads.walk]
  simp only [h.directory, Bool.not_true, Bool.false_eq_true, if_false, if_neg
    (Nat.not_lt_of_le h.short), ← slash]

theorem location?_of_grows {changed : Location → Prop} (grown : t.Grows changed u) (l : Location)
    (h : location? t p = some l) : location? u p = some l := by
  obtain ⟨last, found, rfl⟩ := exists_of_location? l h
  exact location?_of_ofPath (ofPath_of_grows grown found)

theorem ofPath_of_located {changed : Location → Prop} (grown : t.Grows changed u)
    (plain : p.IsPlain) {l : Location} (located : locate t true p = .ok l)
    (h : ofPath u p = .ok (some last)) : ofPath t p = .ok (some last) := by
  obtain ⟨front, slashes, ends⟩ := exists_ends h
  have leads := ((locate_iff_leads p l).mp located).2
  rw [ends.split] at leads
  obtain ⟨m, before⟩ := leads.of_append (List.cons_ne_nil _ _)
  obtain rfl := (before.grows grown).unique ends.leads
  obtain ⟨fewer, walked⟩ := before.walk_append true (last.name :: slashes) (List.cons_ne_nil _ _)
  rw [leads.walk, walk_cons] at walked
  split at walked
  · cases walked
  rename_i directory
  have earlier : Ends t p last front slashes :=
    { ends with leads := before, directory := by simpa using directory }
  exact earlier.ofPath plain (hasSlash_of_ofPath h)

end LastName

namespace FileTree

open Place

variable {t u : FileTree} {p : Path}

/-- A path names an entry: the directory of its last name is there, and has the entry. -/
def Holds (t : FileTree) (p : Path) : Prop :=
  ∃ l, LastName.location? t p = some l ∧ t.contains l = true

theorem Holds.grows {changed : Location → Prop} (grown : t.Grows changed u) (h : t.Holds p) :
    u.Holds p := by
  obtain ⟨l, found, there⟩ := h
  exact ⟨l, LastName.location?_of_grows grown l found, grown.contains l there⟩

theorem Holds.contains (h : t.Holds p) (l : Location) (hl : LastName.location? t p = some l) :
    t.contains l = true := by
  obtain ⟨m, found, there⟩ := h
  obtain rfl := Option.some.inj (found.symm.trans hl)
  exact there

theorem Holds.exists_locate (h : t.Holds p) (named : p.EndsInName) :
    ∃ l, locate t false p = .ok l := by
  obtain ⟨l, found, there⟩ := h
  obtain ⟨last, ofPath, rfl⟩ := LastName.exists_of_location? l found
  obtain ⟨front, slashes, ends⟩ := LastName.exists_ends ofPath
  have noSlash : last.hasSlash = false := by
    rw [LastName.hasSlash_of_ofPath ofPath, decide_eq_false_iff_not]
    exact named.getLast?_ne
  obtain rfl := ends.bare noSlash
  obtain ⟨n, hn⟩ := (t.contains_iff _).mp there
  obtain ⟨fewer, place⟩ := ends.ofPath_bare false
  refine ⟨last.location, ?_⟩
  rw [locate_iff_ofPath, place, ends.walk_name, hn]
  cases n with
  | link target => rfl
  | file content => cases fewer <;> rfl
  | directory => cases fewer <;> rfl

theorem holds_of_locate {follow : Bool} {l : Location} (plain : p.IsPlain) (named : p.EndsInName)
    (h : locate t follow p = .ok l) : t.Holds p := by
  obtain ⟨asked, leads⟩ := (locate_iff_leads p l).mp h
  have noSlash := named.getLast?_ne
  obtain ⟨front, name, split, moves, notUp⟩ := named
  rw [split] at leads
  obtain ⟨parent, before⟩ := leads.of_append (List.cons_ne_nil _ _)
  obtain ⟨fewer, walked⟩ := before.walk_append follow [name] (List.cons_ne_nil _ _)
  rw [leads.walk, walk_cons] at walked
  split at walked
  · cases walked
  rename_i directory
  rw [moves, if_neg Bool.false_ne_true] at walked
  split at walked
  · cases walked
  rename_i short
  have ends : LastName.Ends t p ⟨parent, name, false⟩ front [] :=
    ⟨asked, split, by simp, before, by simpa using directory, moves, notUp,
      Nat.le_of_not_lt short, fun _ => rfl⟩
  refine ⟨parent ++ [name],
    LastName.location?_of_ofPath (ends.ofPath plain (by simpa using noSlash)), ?_⟩
  rw [contains_iff]
  split at walked
  · cases walked
  · exact ⟨_, by assumption⟩
  · exact ⟨_, by assumption⟩

end FileTree

theorem Place.locate_of_same {t : FileTree} {p q : Path} {l : Location}
    (same : q.same p = true) (named : q.EndsInName) (short : q.text.utf8ByteSize < maxPathSize)
    (h : locate t true p = .ok l) : locate t true q = .ok l := by
  obtain ⟨asked, leads⟩ := (locate_iff_leads p l).mp h
  have steps := Path.steps_eq_of_same q p same
  have noSlash := named.getLast?_ne
  obtain ⟨front, name, split, moves, -⟩ := named
  refine (locate_iff_leads q l).mpr ⟨(checkText_eq_ok_iff q).mpr ⟨?_, ?_, short⟩,
    leads.respelled steps ?_⟩
  · intro zero
    obtain ⟨s, hs, inside⟩ := (Path.mem_text_iff q _ (by decide)).mp zero
    have step : s ∈ Path.steps q.segments := by
      refine List.mem_filter.mpr ⟨hs, ?_⟩
      cases idle : Path.isIdle s with
      | false => rfl
      | true =>
        have spelled : s = "" ∨ s = "." := by simpa [Path.isIdle] using idle
        rcases spelled with rfl | rfl <;> simp at inside
    rw [steps] at step
    exact ((checkText_eq_ok_iff p).mp asked).1
      ((Path.mem_text_iff p _ (by decide)).mpr ⟨s, List.mem_of_mem_filter step, inside⟩)
  · rw [Ne, Path.text_eq_empty_iff]
    rintro (none | empty)
    · simp [split] at none
    · exact noSlash (by rw [empty]; rfl)
  · rw [split, List.getLast?_concat]
    simpa using moves

end SimpleFiles
