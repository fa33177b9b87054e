import Mathlib.Data.List.TakeWhile
import SimpleFiles.Proofs.Source.Rendering

/-! What the parsers of single tokens read. A token is read at a cursor when the
text there, after spaces, starts with its characters; a word ends where no word
character follows. Reading tokens one after the other is laying them out. -/
namespace SimpleFiles.Source

open Grammar SimpleFiles.Source.Parser

namespace Cursor

def skipSpaces (c : Cursor) : Cursor := c.skipWhile isSpace

end Cursor

structure Passes (c : Cursor) (chars : List Char) (next : Cursor) : Prop where
  text : c.rest = chars ++ next.rest
  position : next.position = c.position.after chars

def Cursor.AtWordEnd (c : Cursor) : Prop := c.rest.head?.any isWordChar = false

structure Token.Starts (t : Token) (c next : Cursor) : Prop where
  passes : Passes c t.chars next
  ends : t.isWord → next.AtWordEnd

/-- A token with the spaces before it. -/
def Token.ReadAt (t : Token) (c next : Cursor) : Prop := t.Starts c.skipSpaces next

inductive Reads : List Token → Cursor → Cursor → Prop
  | nil {c : Cursor} : Reads [] c c
  | cons {t : Token} {ts : List Token} {c mid next : Cursor} (first : t.ReadAt c mid)
      (rest : Reads ts mid next) : Reads (t :: ts) c next

theorem reads_nil_iff (c next : Cursor) : Reads [] c next ↔ c = next := by
  constructor
  · rintro ⟨⟩
    rfl
  · rintro rfl
    exact .nil

theorem reads_cons_iff (t : Token) (ts : List Token) (c next : Cursor) :
    Reads (t :: ts) c next ↔ ∃ mid, t.ReadAt c mid ∧ Reads ts mid next := by
  constructor
  · rintro (_ | ⟨first, rest⟩)
    exact ⟨_, first, rest⟩
  · rintro ⟨mid, first, rest⟩
    exact .cons first rest

theorem reads_append_iff (ts us : List Token) (c next : Cursor) :
    Reads (ts ++ us) c next ↔ ∃ mid, Reads ts c mid ∧ Reads us mid next := by
  induction ts generalizing c with
  | nil => simp [reads_nil_iff]
  | cons t ts ih =>
    simp only [List.cons_append, reads_cons_iff, ih]
    constructor
    · rintro ⟨a, first, b, hts, hus⟩
      exact ⟨b, ⟨a, first, hts⟩, hus⟩
    · rintro ⟨b, ⟨a, first, hts⟩, hus⟩
      exact ⟨a, first, b, hts, hus⟩

theorem Reads.append {ts us : List Token} {c mid next : Cursor} (first : Reads ts c mid)
    (last : Reads us mid next) : Reads (ts ++ us) c next :=
  (reads_append_iff ts us c next).2 ⟨mid, first, last⟩

/-! The primitive parsers. -/

theorem token_run (p : Parser α) (c : Cursor) : (token p).run c = p.run c.skipSpaces := rfl

@[simp] theorem spanned_run (p : Parser α) (c : Cursor) :
    (spanned p).run c =
      (p.run c).map fun (a, next) => ((a, c.position.spanTo next.position), next) := rfl

theorem bind_run_iff (p : Parser α) (f : α → Parser β) (c : Cursor) (r : β × Cursor) :
    (p >>= f).run c = some r ↔ ∃ a mid, p.run c = some (a, mid) ∧ (f a).run mid = some r := by
  simp only [run_bind, Option.bind_eq_some_iff, Prod.exists]

theorem exists_unit {P : Unit → Prop} : (∃ u, P u) ↔ P () :=
  ⟨fun ⟨_, h⟩ => h, fun h => ⟨(), h⟩⟩

theorem Cursor.eq_iff (c next : Cursor) :
    c = next ↔ c.rest = next.rest ∧ c.position = next.position := by
  cases c
  cases next
  simp

theorem advance_eq_iff (c next : Cursor) {chars : List Char} (h : chars <+: c.rest) :
    c.advance chars.length = next ↔ Passes c chars next := by
  obtain ⟨rest, hrest⟩ := h
  have hc : c.advance chars.length = ⟨rest, c.position.after chars⟩ := by
    simp [Cursor.advance, ← hrest]
  rw [hc, Cursor.eq_iff]
  constructor
  · rintro ⟨rfl, hposition⟩
    exact ⟨hrest.symm, hposition.symm⟩
  · rintro ⟨htext, hposition⟩
    exact ⟨List.append_cancel_left (hrest.trans htext), hposition.symm⟩

theorem literal_run_iff (word : String) (c next : Cursor) :
    (literal word).run c = some ((), next) ↔ Passes c word.toList next := by
  simp only [literal, silent]
  split
  · next h =>
    rw [List.isPrefixOf_iff_prefix] at h
    simp only [Option.some.injEq, Prod.mk.injEq, true_and]
    exact advance_eq_iff c next h
  · next h =>
    rw [List.isPrefixOf_iff_prefix] at h
    simp only [reduceCtorEq, false_iff]
    intro hp
    exact h ⟨next.rest, hp.text.symm⟩

private theorem takeWhile_of_head? {test : Char → Bool} {cs : List Char}
    (h : cs.head?.any test = false) : cs.takeWhile test = [] ∧ cs.dropWhile test = cs := by
  cases cs with
  | nil => exact ⟨rfl, rfl⟩
  | cons a cs =>
    have ha : test a = false := by simpa using h
    simp [ha]

private theorem head?_dropWhile (test : Char → Bool) (cs : List Char) :
    (cs.dropWhile test).head?.any test = false := by
  have h := List.head?_dropWhile_not test cs
  cases hd : (cs.dropWhile test).head? with
  | none => rfl
  | some a =>
    rw [hd] at h
    exact h

theorem skipWhile_eq_iff (test : Char → Bool) (c next : Cursor) (chars : List Char) :
    (c.rest.takeWhile test = chars ∧ c.skipWhile test = next) ↔
      (∀ a ∈ chars, test a) ∧ Passes c chars next ∧ next.rest.head?.any test = false := by
  constructor
  · rintro ⟨rfl, rfl⟩
    refine ⟨fun a ha => List.mem_takeWhile_imp ha, ⟨?_, rfl⟩, head?_dropWhile test c.rest⟩
    exact List.takeWhile_append_dropWhile.symm
  · rintro ⟨hall, ⟨htext, hposition⟩, hstop⟩
    obtain ⟨htake, hdrop⟩ := takeWhile_of_head? hstop
    have hrun : c.rest.takeWhile test = chars := by
      rw [htext, List.takeWhile_append_of_pos hall, htake, List.append_nil]
    refine ⟨hrun, (Cursor.eq_iff _ _).2 ⟨?_, ?_⟩⟩
    · rw [Cursor.skipWhile, htext, List.dropWhile_append_of_pos hall, hdrop]
    · rw [hposition, Cursor.skipWhile, hrun]

private theorem ofList_eq_iff (cs : List Char) (s : String) :
    String.ofList cs = s ↔ cs = s.toList := by
  rw [← String.toList_inj, String.toList_ofList]

theorem takeWhile_run_iff (test : Char → Bool) (c next : Cursor) (s : String) :
    (takeWhile test).run c = some (s, next) ↔ (∀ a ∈ s.toList, test a) ∧
      Passes c s.toList next ∧ next.rest.head?.any test = false := by
  rw [← skipWhile_eq_iff, ← ofList_eq_iff]
  simp only [takeWhile, silent, Option.some.injEq, Prod.mk.injEq]

theorem takeSome_run_iff (test : Char → Bool) (c next : Cursor) (s : String) :
    (takeSome test).run c = some (s, next) ↔ s ≠ "" ∧ (∀ a ∈ s.toList, test a) ∧
      Passes c s.toList next ∧ next.rest.head?.any test = false := by
  rw [← skipWhile_eq_iff, ← ofList_eq_iff]
  simp only [takeSome, silent]
  split
  · next h =>
    have hs : String.ofList (c.rest.takeWhile test) ≠ "" := by
      cases hrest : c.rest with
      | nil => simp [hrest] at h
      | cons a rest => simp_all
    simp only [Option.some.injEq, Prod.mk.injEq, iff_and_self]
    rintro ⟨rfl, -⟩
    exact hs
  · next h =>
    have htake := (takeWhile_of_head? (Bool.not_eq_true _ ▸ h)).1
    simp only [reduceCtorEq, false_iff, htake]
    rintro ⟨hs, rfl, -⟩
    exact hs rfl

theorem notNext_run_iff (test : Char → Bool) (c next : Cursor) :
    (notNext test).run c = some ((), next) ↔ c = next ∧ next.rest.head?.any test = false := by
  simp only [notNext, silent]
  split
  · next h =>
    simp only [reduceCtorEq, false_iff]
    rintro ⟨rfl, hstop⟩
    simp [h] at hstop
  · next h =>
    simp only [Option.some.injEq, Prod.mk.injEq, true_and, iff_self_and]
    rintro rfl
    simpa using h

/-! Each kind of token. -/

theorem mark_run_iff (s : String) (c next : Cursor) :
    (literal s).run c = some ((), next) ↔ (Token.mark s).Starts c next := by
  rw [literal_run_iff]
  exact ⟨fun h => ⟨h, nofun⟩, fun h => h.passes⟩

theorem keyword_run_iff (s : String) (c next : Cursor) :
    (keyword s).run c = some ((), next) ↔ (Token.word s).Starts c next := by
  simp only [keyword, run_named, bind_run_iff, exists_unit, literal_run_iff, notNext_run_iff]
  constructor
  · rintro ⟨mid, hpass, rfl, hstop⟩
    exact ⟨hpass, fun _ => hstop⟩
  · rintro ⟨hpass, hstop⟩
    exact ⟨next, hpass, rfl, hstop rfl⟩

theorem name_run_iff (s : String) (c next : Cursor) :
    name.run c = some (s, next) ↔ IsWord s ∧ (Token.word s).Starts c next := by
  simp only [name, run_named, takeSome_run_iff]
  constructor
  · rintro ⟨hne, hall, hpass, hstop⟩
    exact ⟨⟨hne, hall⟩, hpass, fun _ => hstop⟩
  · rintro ⟨⟨hne, hall⟩, hpass, hstop⟩
    exact ⟨hne, hall, hpass, hstop rfl⟩

theorem parameterKey_run_iff (s : String) (c next : Cursor) :
    parameterKey.run c = some (s, next) ↔ IsKey s ∧ (Token.word s).Starts c next := by
  have hhead : name.run c = some (s, next) → c.rest.head? = s.toList.head? := by
    rw [name_run_iff]
    rintro ⟨⟨hne, -⟩, hstart⟩
    rw [hstart.passes.text]
    exact List.head?_append_of_ne_nil _ (String.toList_eq_nil_iff.not.2 hne)
  have hrun : parameterKey.run c =
      if c.rest.head?.any isKeyStart then name.run c else none := rfl
  rw [hrun, IsKey, and_assoc, and_left_comm, ← name_run_iff]
  constructor
  · intro h
    split at h
    · next hkey => exact ⟨hhead h ▸ hkey, h⟩
    · contradiction
  · rintro ⟨hkey, h⟩
    rw [if_pos (hhead h ▸ hkey), h]

theorem Passes.append {c mid next : Cursor} {as bs : List Char} (first : Passes c as mid)
    (last : Passes mid bs next) : Passes c (as ++ bs) next := by
  refine ⟨?_, ?_⟩
  · rw [first.text, last.text, List.append_assoc]
  · rw [last.position, first.position, Position.after_append]

theorem Passes.split {c next : Cursor} (as : List Char) {bs : List Char}
    (h : Passes c (as ++ bs) next) :
    ∃ mid, Passes c as mid ∧ Passes mid bs next := by
  refine ⟨⟨bs ++ next.rest, c.position.after as⟩, ⟨?_, rfl⟩, rfl, ?_⟩
  · rw [h.text, List.append_assoc]
  · rw [h.position, Position.after_append]

theorem action_run_iff (s : String) (c next : Cursor) :
    action.run c = some (s, next) ↔
      IsWord s ∧ (Token.action s).Starts c next ∧ next.AtWordEnd := by
  simp only [action, run_named, bind_run_iff, exists_unit, literal_run_iff, takeSome_run_iff]
  constructor
  · rintro ⟨mid, hcolon, hne, hall, hpass, hstop⟩
    exact ⟨⟨hne, hall⟩, ⟨hcolon.append hpass, nofun⟩, hstop⟩
  · rintro ⟨⟨hne, hall⟩, ⟨hpass, -⟩, hstop⟩
    obtain ⟨mid, hcolon, hword⟩ := hpass.split [':']
    exact ⟨mid, hcolon, hne, hall, hword, hstop⟩

theorem text_run_iff (s : String) (c next : Cursor) :
    text.run c = some (s, next) ↔ IsQuotable s ∧ (Token.text s).Starts c next := by
  simp only [text, run_named, bind_run_iff, exists_unit, literal_run_iff, takeWhile_run_iff,
    run_pure, Option.some.injEq, Prod.mk.injEq]
  constructor
  · rintro ⟨mid, hopen, value, stop, ⟨hall, hpass, -⟩, last, hclose, rfl, rfl⟩
    refine ⟨fun hq => by simpa using hall _ hq, ?_, nofun⟩
    exact hopen.append (hpass.append hclose)
  · rintro ⟨hall, ⟨hpass, -⟩⟩
    obtain ⟨mid, hopen, hrest⟩ := hpass.split ['"']
    obtain ⟨stop, hvalue, hclose⟩ := hrest.split _
    refine ⟨mid, hopen, s, stop, ⟨?_, hvalue, ?_⟩, next, hclose, rfl, rfl⟩
    · intro a ha
      simpa using fun h : a = '"' => hall (h ▸ ha)
    · simp [hclose.text]

theorem atEnd_run_iff (c next : Cursor) :
    atEnd.run c = some ((), next) ↔ c = next ∧ c.rest = [] := by
  simp only [atEnd, silent, Cursor.atEnd, List.isEmpty_iff]
  split
  · next h => simp [h]
  · next h => simp [h]

/-! Tokens that the grammar can write start with a character that tells words
from other tokens, and never with a space. -/

def Token.IsValid : Token → Prop
  | .word s => IsWord s
  | .mark s => s ∈ ["->", "-->", "=", ";"]
  | .action s => IsWord s
  | .text s => IsQuotable s

theorem not_isWordChar_of_isSpace {c : Char} (h : isSpace c) : isWordChar c = false := by
  simp only [isSpace, Bool.or_eq_true, decide_eq_true_eq] at h
  rcases h with ((rfl | rfl) | rfl) | rfl <;> decide

theorem IsWord.exists_cons {s : String} (h : IsWord s) :
    ∃ a rest, s.toList = a :: rest ∧ isWordChar a := by
  obtain ⟨hne, hall⟩ := h
  cases hs : s.toList with
  | nil => exact absurd (String.toList_eq_nil_iff.1 hs) hne
  | cons a rest => exact ⟨a, rest, rfl, hall a (by simp [hs])⟩

theorem Token.IsValid.exists_cons {t : Token} (h : t.IsValid) :
    ∃ a rest, t.chars = a :: rest ∧ isSpace a = false ∧ isWordChar a = t.isWord := by
  cases t with
  | word s =>
    obtain ⟨a, rest, hs, ha⟩ := IsWord.exists_cons h
    refine ⟨a, rest, hs, ?_, ha⟩
    by_contra hspace
    have := not_isWordChar_of_isSpace (Bool.not_eq_false _ ▸ hspace)
    simp [ha] at this
  | mark s =>
    simp only [IsValid, List.mem_cons, List.not_mem_nil, or_false] at h
    rcases h with rfl | rfl | rfl | rfl
    · exact ⟨'-', ['>'], rfl, by decide, by decide⟩
    · exact ⟨'-', ['-', '>'], rfl, by decide, by decide⟩
    · exact ⟨'=', [], rfl, by decide, by decide⟩
    · exact ⟨';', [], rfl, by decide, by decide⟩
  | action s => exact ⟨':', s.toList, rfl, rfl, rfl⟩
  | text s => exact ⟨'"', s.toList ++ ['"'], rfl, rfl, rfl⟩

theorem skipSpaces_eq {c : Cursor} {gap cs : List Char} (hgap : IsGap gap)
    (hrest : c.rest = gap ++ cs) (hcs : cs.head?.any isSpace = false) :
    c.skipSpaces.rest = cs := by
  rw [Cursor.skipSpaces, Cursor.skipWhile, hrest, List.dropWhile_append_of_pos hgap]
  exact (takeWhile_of_head? hcs).2

theorem exists_gap (c : Cursor) :
    ∃ gap, IsGap gap ∧ c.rest = gap ++ c.skipSpaces.rest :=
  ⟨c.rest.takeWhile isSpace, fun _ ha => List.mem_takeWhile_imp ha,
    List.takeWhile_append_dropWhile.symm⟩

theorem atWordEnd_of_gap {c : Cursor} {gap cs : List Char} {a : Char} (hgap : IsGap gap)
    (hrest : c.rest = gap ++ a :: cs) (hsep : gap = [] → isWordChar a = false) : c.AtWordEnd := by
  rw [Cursor.AtWordEnd, hrest]
  cases gap with
  | nil => simpa using hsep rfl
  | cons b gap => simpa using not_isWordChar_of_isSpace (hgap b (.head gap))

theorem Token.ReadAt.atWordEnd {t : Token} {c next : Cursor} (h : t.ReadAt c next)
    (ht : t.IsValid) (hword : t.isWord = false) : c.AtWordEnd := by
  obtain ⟨gap, hgap, hrest⟩ := exists_gap c
  obtain ⟨a, chars, ha, -, haw⟩ := ht.exists_cons
  rw [h.passes.text, ha, List.cons_append] at hrest
  exact atWordEnd_of_gap hgap hrest fun _ => haw.trans hword

theorem IsGap.atWordEnd {c : Cursor} (h : IsGap c.rest) : c.AtWordEnd := by
  rw [Cursor.AtWordEnd]
  cases hrest : c.rest with
  | nil => rfl
  | cons a rest => simpa using not_isWordChar_of_isSpace (h a (by simp [hrest]))

theorem layout_iff_reads {ts : List Token} (hts : ∀ t ∈ ts, t.IsValid) (afterWord : Bool)
    (c : Cursor) : Layout afterWord ts c.rest ↔
      (afterWord → c.AtWordEnd) ∧ ∃ next, Reads ts c next ∧ IsGap next.rest := by
  induction ts generalizing afterWord c with
  | nil =>
    constructor
    · intro h
      cases h with
      | done hgap => exact ⟨fun _ => hgap.atWordEnd, c, .nil, hgap⟩
    · rintro ⟨-, next, hreads, hgap⟩
      cases hreads
      exact .done hgap
  | cons t ts ih =>
    have ht := hts t (.head ts)
    have ih := ih fun u hu => hts u (.tail t hu)
    obtain ⟨a, chars, ha, hspace, hword⟩ := ht.exists_cons
    constructor
    · generalize hrest : c.rest = cs
      intro h
      cases h with
      | @token _ gap cs _ _ hgap hsep hlaid =>
        rw [ha] at hrest
        have hskip : c.skipSpaces.rest = t.chars ++ cs := by
          rw [ha]
          exact skipSpaces_eq hgap (by simpa using hrest) (by simp [hspace])
        obtain ⟨hends, next, hreads, hstop⟩ :=
          (ih t.isWord ⟨cs, c.skipSpaces.position.after t.chars⟩).1 hlaid
        refine ⟨fun hafter => ?_, next, .cons ⟨⟨hskip, rfl⟩, hends⟩ hreads, hstop⟩
        refine atWordEnd_of_gap hgap (by simpa using hrest) fun hnil => hword.trans ?_
        exact Bool.eq_false_iff.2 fun h => hsep hafter h hnil
    · rintro ⟨hafter, next, hreads, hstop⟩
      cases hreads with
      | @cons _ _ _ mid _ first rest =>
        obtain ⟨gap, hgap, hrest⟩ := exists_gap c
        rw [first.passes.text, ← List.append_assoc] at hrest
        rw [hrest]
        refine .token hgap (fun hw ht hnil => ?_) ((ih _ mid).2 ⟨first.ends, next, rest, hstop⟩)
        have hend := hafter hw
        simp [Cursor.AtWordEnd, hrest, hnil, ha, hword, ht] at hend

end SimpleFiles.Source
