import Mathlib.Data.String.Basic
import SimpleFiles.Proofs.Source.Reading

/-! Places in a text. The offset, line and column that a cursor carries are those of
the characters it has passed, and a span read between two cursors cuts out of the
text what stands between them. -/
namespace SimpleFiles

namespace Span

def first (s : Span) : Source.Position := ⟨s.start, s.startLine, s.startColumn⟩

def last (s : Span) : Source.Position := ⟨s.stop, s.stopLine, s.stopColumn⟩

def Precedes (s t : Span) : Prop := s.stop ≤ t.start

end Span

namespace Source

/-- Where some characters end: their bytes, their line feeds, and the characters
since the last of these. -/
def Position.of (before : List Char) : Position where
  offset := String.utf8Len before
  line := before.count '\n'
  column := (before.reverse.takeWhile (· ≠ '\n')).length

def Position.Before (a b : Position) : Prop :=
  a.line < b.line ∨ a.line = b.line ∧ a.column < b.column

def textBefore (source : String) (offset : Nat) : List Char := (splitAt offset source.toList).1

def textBetween (source : String) (start stop : Nat) : List Char :=
  (splitAt (stop - start) (splitAt start source.toList).2).1

/-- What a span cuts out of a text. -/
def slice (source : String) (s : Span) : String := .ofList (textBetween source s.start s.stop)

/-- The position of a byte offset in a text. -/
def positionAt (source : String) (offset : Nat) : Position := .of (textBefore source offset)

/-- Both ends of the span stand between two characters of the text, and have the
lines and columns of those places. -/
structure IsPlaced (source : String) (s : Span) : Prop where
  first : positionAt source s.start = s.first
  last : positionAt source s.stop = s.last

/-- Spans that follow one another from one offset to another, with nothing but
spaces before and between them. -/
def Follow (source : String) : Nat → List Span → Nat → Prop
  | start, [], stop => start = stop
  | start, s :: rest, stop =>
    (start ≤ s.start ∧ IsGap (textBetween source start s.start)) ∧ s.start < s.stop ∧
      Follow source s.stop rest stop

/-! The position after some characters. -/

theorem Position.of_concat (before : List Char) (c : Char) :
    Position.of (before ++ [c]) = (Position.of before).next c := by
  by_cases h : c = '\n'
  · simp [Position.of, Position.next, h]
  · simp [Position.of, Position.next, h]

theorem Position.after_of (before piece : List Char) :
    (Position.of before).after piece = .of (before ++ piece) := by
  induction piece generalizing before with
  | nil => simp [Position.after]
  | cons c piece ih =>
    have step : (Position.of before).after (c :: piece) =
        (Position.of (before ++ [c])).after piece := by
      rw [Position.of_concat]
      rfl
    rw [step, ih, List.append_assoc, List.singleton_append]

theorem Position.before_append (before : List Char) {piece : List Char} (h : piece ≠ []) :
    (Position.of before).Before (.of (before ++ piece)) := by
  by_cases feed : '\n' ∈ piece
  · left
    simp only [Position.of, List.count_append]
    have := List.count_pos_iff.mpr feed
    omega
  · right
    have run : piece.reverse.takeWhile (· ≠ '\n') = piece.reverse := by
      rw [List.takeWhile_eq_self_iff]
      intro c hc
      have : c ≠ '\n' := fun same => feed (same ▸ List.mem_reverse.mp hc)
      simpa using this
    have longer := List.length_pos_iff.mpr h
    constructor
    · simp [Position.of, List.count_append, List.count_eq_zero.mpr feed]
    · simp only [Position.of, List.reverse_append]
      rw [List.takeWhile_append, run, if_pos rfl, List.length_append, List.length_reverse]
      omega

/-! Cutting a text at byte offsets. -/

theorem splitAt_append (before rest : List Char) :
    splitAt (String.utf8Len before) (before ++ rest) = (before, rest) := by
  induction before with
  | nil => cases rest <;> simp [splitAt]
  | cons c before ih =>
    have wide := c.utf8Size_pos
    have later : String.utf8Len before + c.utf8Size - c.utf8Size = String.utf8Len before := by omega
    rw [List.cons_append, splitAt, String.utf8Len_cons, if_neg (by omega), later, ih]

theorem textBefore_eq {source : String} {before rest : List Char}
    (h : source.toList = before ++ rest) : textBefore source (String.utf8Len before) = before := by
  rw [textBefore, h, splitAt_append]

theorem textBetween_eq {source : String} {before piece rest : List Char}
    (h : source.toList = before ++ piece ++ rest) :
    textBetween source (String.utf8Len before) (String.utf8Len (before ++ piece)) = piece := by
  have width : String.utf8Len (before ++ piece) - String.utf8Len before = String.utf8Len piece := by
    rw [String.utf8Len_append]
    omega
  rw [textBetween, h, List.append_assoc, splitAt_append, width, splitAt_append]

theorem isPrefix_splitAt_fst (offset : Nat) (cs : List Char) : (splitAt offset cs).1 <+: cs := by
  induction cs generalizing offset with
  | nil => exact List.prefix_rfl
  | cons c rest ih =>
    rw [splitAt]
    split
    · exact List.nil_prefix
    · exact List.prefix_cons_inj c |>.mpr (ih _)

theorem utf8Len_pos {piece : List Char} (h : piece ≠ []) : 0 < String.utf8Len piece := by
  cases piece with
  | nil => exact absurd rfl h
  | cons c piece =>
    have wide := c.utf8Size_pos
    rw [String.utf8Len_cons]
    omega

theorem length_le_utf8Len (cs : List Char) : cs.length ≤ String.utf8Len cs := by
  induction cs with
  | nil => exact Nat.le_refl 0
  | cons c cs ih =>
    have wide := c.utf8Size_pos
    rw [List.length_cons, String.utf8Len_cons]
    omega

theorem IsPlaced.start_le {source : String} {s : Span} (h : IsPlaced source s) :
    s.startLine ≤ source.utf8ByteSize ∧ s.startColumn ≤ source.utf8ByteSize := by
  have inside : (textBefore source s.start).length ≤ source.utf8ByteSize := by
    rw [← String.utf8Len_toList]
    exact (length_le_utf8Len _).trans
      (String.utf8Len_le_of_prefix (isPrefix_splitAt_fst s.start source.toList))
  have line : (textBefore source s.start).count '\n' = s.startLine :=
    congrArg Position.line h.first
  have column : ((textBefore source s.start).reverse.takeWhile (· ≠ '\n')).length =
      s.startColumn := congrArg Position.column h.first
  constructor
  · exact line ▸ List.count_le_length.trans inside
  · have shorter := (List.takeWhile_prefix (l := (textBefore source s.start).reverse)
      (· ≠ '\n')).length_le
    rw [List.length_reverse] at shorter
    exact column ▸ shorter.trans inside

theorem before_of_offset_lt {source : String} {a b : Position}
    (ha : positionAt source a.offset = a) (hb : positionAt source b.offset = b)
    (h : a.offset < b.offset) : a.Before b := by
  have sizeA : String.utf8Len (textBefore source a.offset) = a.offset := congrArg Position.offset ha
  have sizeB : String.utf8Len (textBefore source b.offset) = b.offset := congrArg Position.offset hb
  -- of two beginnings of a text, one begins the other
  rcases List.prefix_or_prefix_of_prefix (isPrefix_splitAt_fst a.offset source.toList)
    (isPrefix_splitAt_fst b.offset source.toList) with ⟨piece, same⟩ | ⟨piece, same⟩
  · have grown : textBefore source a.offset ++ piece = textBefore source b.offset := same
    have longer : piece ≠ [] := by
      rintro rfl
      rw [List.append_nil] at grown
      rw [grown] at sizeA
      omega
    rw [← ha, ← hb, positionAt, positionAt, ← grown]
    exact Position.before_append _ longer
  · have grown : textBefore source b.offset ++ piece = textBefore source a.offset := same
    rw [← grown, String.utf8Len_append] at sizeA
    omega

/-! Cursors in a text. -/

/-- The cursor stands in a text, after some characters of it. -/
structure Cursor.Stands (c : Cursor) (source : String) (before : List Char) : Prop where
  text : source.toList = before ++ c.rest
  position : c.position = .of before

/-- The span covers a piece of a text that stands after some characters. -/
structure Marks (source : String) (before piece : List Char) (s : Span) : Prop where
  text : ∃ rest, source.toList = before ++ piece ++ rest
  first : s.first = .of before
  last : s.last = .of (before ++ piece)

theorem start_stands (source : String) : (start source).Stands source [] := ⟨rfl, rfl⟩

theorem Cursor.Stands.passes {c next : Cursor} {source : String} {before chars : List Char}
    (h : c.Stands source before) (hp : Passes c chars next) :
    next.Stands source (before ++ chars) := by
  refine ⟨?_, ?_⟩
  · rw [h.text, hp.text, List.append_assoc]
  · rw [hp.position, h.position, Position.after_of]

theorem Cursor.Stands.marks {c next : Cursor} {source : String} {before piece : List Char}
    (h : c.Stands source before) (hp : Passes c piece next) :
    Marks source before piece (c.position.spanTo next.position) where
  text := ⟨next.rest, (h.passes hp).text⟩
  first := h.position
  last := (h.passes hp).position

namespace Marks

variable {source : String} {before piece : List Char} {s : Span}

theorem start_eq (h : Marks source before piece s) : s.start = String.utf8Len before :=
  congrArg Position.offset h.first

theorem stop_eq (h : Marks source before piece s) : s.stop = String.utf8Len (before ++ piece) :=
  congrArg Position.offset h.last

theorem slice_eq (h : Marks source before piece s) : slice source s = .ofList piece := by
  obtain ⟨rest, text⟩ := h.text
  rw [slice, h.start_eq, h.stop_eq, textBetween_eq text]

theorem isPlaced (h : Marks source before piece s) : IsPlaced source s := by
  obtain ⟨rest, text⟩ := h.text
  refine ⟨?_, ?_⟩
  · rw [positionAt, h.start_eq, textBefore_eq (text.trans (List.append_assoc ..)), h.first]
  · rw [positionAt, h.stop_eq, textBefore_eq text, h.last]

theorem start_lt_stop (h : Marks source before piece s) (hne : piece ≠ []) : s.start < s.stop := by
  have := utf8Len_pos hne
  rw [h.start_eq, h.stop_eq, String.utf8Len_append]
  omega

end Marks

/-! Spans one after the other. -/

theorem Follow.append {source : String} {start mid stop : Nat} {ss ts : List Span}
    (h : Follow source start ss mid) (h' : Follow source mid ts stop) :
    Follow source start (ss ++ ts) stop := by
  induction ss generalizing start with
  | nil =>
    obtain rfl : start = mid := h
    exact h'
  | cons s ss ih => exact ⟨h.1, h.2.1, ih h.2.2⟩

theorem Follow.le_start {source : String} {start stop : Nat} {ss : List Span}
    (h : Follow source start ss stop) : ∀ s ∈ ss, start ≤ s.start := by
  induction ss generalizing start with
  | nil => exact nofun
  | cons s ss ih =>
    intro t ht
    obtain ⟨⟨le, -⟩, lt, rest⟩ := h
    rcases List.mem_cons.mp ht with rfl | ht
    · exact le
    · have := ih rest t ht
      omega

theorem Follow.stop_le {source : String} {start stop : Nat} {ss : List Span}
    (h : Follow source start ss stop) : start ≤ stop ∧ ∀ s ∈ ss, s.stop ≤ stop := by
  induction ss generalizing start with
  | nil => exact ⟨Nat.le_of_eq h, nofun⟩
  | cons s ss ih =>
    obtain ⟨⟨le, -⟩, lt, rest⟩ := h
    obtain ⟨later, all⟩ := ih rest
    refine ⟨by omega, List.forall_mem_cons.mpr ⟨later, all⟩⟩

theorem Follow.pairwise {source : String} {start stop : Nat} {ss : List Span}
    (h : Follow source start ss stop) : ss.Pairwise Span.Precedes := by
  induction ss generalizing start with
  | nil => exact .nil
  | cons s ss ih =>
    obtain ⟨-, -, rest⟩ := h
    exact .cons rest.le_start (ih rest)

end Source
end SimpleFiles
