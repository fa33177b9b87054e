import Mathlib.Data.List.TakeWhile
import SimpleFiles.NameTemplate
import SimpleFiles.Proofs.Text.Integer

/-! How a template with an iterator is spelled. A text is read as a template exactly if it
spells one. -/
namespace SimpleFiles.NameTemplate

open Text

def Fits (n : Int) : Prop := -2 ^ 63 ≤ n ∧ n < 2 ^ 63

inductive Bounds : List Char → Int → Int → Prop
  | none : Bounds [] 0 1
  | start {digits : List Char} {start : Int} (written : IsInteger digits start)
      (fits : Fits start) : Bounds (':' :: digits) start 1
  | both {digits more : List Char} {start step : Int} (written : IsInteger digits start)
      (fits : Fits start) (written' : IsInteger more step) (fits' : Fits step) :
      Bounds (':' :: digits ++ ':' :: more) start step

/-- Letters, and after them at most one dot with letters of its own. -/
inductive IsEnding : List Char → Prop
  | plain {cs : List Char} (letters : ∀ c ∈ cs, c.isAlpha) : IsEnding cs
  | dotted {cs ds : List Char} (letters : ∀ c ∈ cs, c.isAlpha) (filled : ds ≠ [])
      (letters' : ∀ d ∈ ds, d.isAlpha) : IsEnding (cs ++ '.' :: ds)

/-- The text spells a front, an iterator with its bounds and a back. -/
structure SpelledBy (t : NameTemplate) (template : String) : Prop where
  filled : t.front ≠ ""
  isFront : ∀ c ∈ t.front.toList, c.isAlpha ∨ c = '_' ∨ c = ' '
  isEnding : IsEnding t.back.toList
  spelled : ∃ bounds, Bounds bounds t.start t.step ∧
    template.toList = t.front.toList ++ "$\x7bITERATOR".toList ++ bounds ++ '\x7d' :: t.back.toList

theorem holds64_iff (n : Int) : Word.holds64 n = true ↔ Fits n := by
  simp [Word.holds64, Fits]

/-! Bounds. -/

theorem isNumberChar_of_isInteger {digits : List Char} {n : Int} (h : IsInteger digits n) :
    ∀ c ∈ digits, isNumberChar c := by
  have numeral {ds : List Char} {m : Nat} (h : IsNumeral ds m) : ∀ c ∈ ds, isNumberChar c := by
    intro c hc
    simp [isNumberChar, h.isDigit c hc]
  cases h with
  | plain h => exact numeral h
  | plus h => exact List.forall_mem_cons.mpr ⟨rfl, numeral h⟩
  | minus h => exact List.forall_mem_cons.mpr ⟨rfl, numeral h⟩

theorem readBound_absent (default : Int) (c : Char) (rest : List Char) (h : c ≠ ':') :
    readBound default (c :: rest) = some (default, c :: rest) := by
  unfold readBound
  split
  · rename_i colon
    exact absurd (List.cons.inj colon).1 h
  · rfl

theorem readBound_written (default : Int) {digits : List Char} {n : Int} (c : Char)
    (rest : List Char) (written : IsInteger digits n) (fits : Fits n) (h : isNumberChar c = false) :
    readBound default (':' :: digits ++ c :: rest) = some (n, c :: rest) := by
  have all := isNumberChar_of_isInteger written
  have taken : (digits ++ c :: rest).takeWhile isNumberChar = digits := by
    rw [List.takeWhile_append_of_pos all, List.takeWhile_cons_of_neg (by simp [h]),
      List.append_nil]
  have left : (digits ++ c :: rest).dropWhile isNumberChar = c :: rest := by
    rw [List.dropWhile_append_of_pos all, List.dropWhile_cons_of_neg (by simp [h])]
  have read : int64? (.ofList digits) = some n := by
    rw [int64?_eq_some_iff, String.toList_ofList]
    exact ⟨written, fits⟩
  rw [List.cons_append, readBound, taken, left, read]
  rfl

theorem readBound_cases (default : Int) {cs rest : List Char} {n : Int}
    (h : readBound default cs = some (n, rest)) :
    (n = default ∧ rest = cs ∧ ∀ more, cs ≠ ':' :: more) ∨
      ∃ digits, cs = ':' :: digits ++ rest ∧ IsInteger digits n ∧ Fits n := by
  unfold readBound at h
  split at h
  · rename_i more
    obtain ⟨m, read, same⟩ := Option.map_eq_some_iff.mp h
    cases same
    rw [int64?_eq_some_iff, String.toList_ofList] at read
    refine .inr ⟨more.takeWhile isNumberChar, ?_, read⟩
    rw [List.cons_append, List.takeWhile_append_dropWhile]
  · rename_i none
    cases h
    exact .inl ⟨rfl, rfl, none⟩

theorem readBounds_iff (cs back : List Char) (start step : Int) :
    (∃ rest, readBound 0 cs = some (start, rest) ∧
      readBound 1 rest = some (step, '\x7d' :: back)) ↔
      ∃ bounds, Bounds bounds start step ∧ cs = bounds ++ '\x7d' :: back := by
  constructor
  · rintro ⟨rest, first, second⟩
    rcases readBound_cases 0 first with ⟨rfl, rfl, none⟩ | ⟨digits, rfl, written, fits⟩
    · rcases readBound_cases 1 second with ⟨rfl, rfl, -⟩ | ⟨digits, rfl, -, -⟩
      · exact ⟨[], .none, rfl⟩
      · exact absurd rfl (none _)
    · rcases readBound_cases 1 second with ⟨rfl, rfl, -⟩ | ⟨more, rfl, written', fits'⟩
      · exact ⟨_, .start written fits, rfl⟩
      · exact ⟨_, .both written fits written' fits', by simp⟩
  · rintro ⟨bounds, spelled, rfl⟩
    cases spelled with
    | none =>
      exact ⟨_, readBound_absent 0 '\x7d' back (by decide),
        readBound_absent 1 '\x7d' back (by decide)⟩
    | start written fits =>
      exact ⟨_, readBound_written 0 '\x7d' back written fits (by decide),
        readBound_absent 1 '\x7d' back (by decide)⟩
    | both written fits written' fits' =>
      refine ⟨_, ?_, readBound_written 1 '\x7d' back written' fits' (by decide)⟩
      rw [List.append_assoc]
      exact readBound_written 0 ':' _ written fits (by decide)

/-! The back. -/

theorem isBack_iff (cs : List Char) : isBack cs = true ↔ IsEnding cs := by
  constructor
  · intro h
    have letters : ∀ c ∈ cs.takeWhile Char.isAlpha, c.isAlpha := fun c => List.mem_takeWhile_imp
    rw [← List.takeWhile_append_dropWhile (p := Char.isAlpha) (l := cs)]
    unfold isBack at h
    split at h
    · rename_i none
      rw [none, List.append_nil]
      exact .plain letters
    · rename_i rest dot
      simp only [ne_eq, Bool.and_eq_true, decide_eq_true_eq, List.all_eq_true] at h
      rw [dot]
      exact .dotted letters h.1 h.2
    · cases h
  · intro h
    cases h with
    | plain letters =>
      rw [isBack, List.dropWhile_eq_nil_iff.mpr letters]
    | dotted letters filled letters' =>
      rw [isBack, List.dropWhile_append_of_pos letters, List.dropWhile_cons_of_neg (by decide)]
      simpa using ⟨filled, letters'⟩

theorem isFrontChar_iff (c : Char) : isFrontChar c = true ↔ c.isAlpha ∨ c = '_' ∨ c = ' ' := by
  simp [isFrontChar, or_assoc]

/-! The whole template. -/

theorem exists_opening : ∃ rest, opening = '$' :: rest := ⟨opening.tail, by decide +kernel⟩

theorem read?_iff_parts (template : List Char) (t : NameTemplate) :
    read? template = some t ↔
      ∃ tail, template.dropWhile isFrontChar = opening ++ tail ∧
        template.takeWhile isFrontChar ≠ [] ∧ t.front = .ofList (template.takeWhile isFrontChar) ∧
        isBack t.back.toList = true ∧
        ∃ rest, readBound 0 tail = some (t.start, rest) ∧
          readBound 1 rest = some (t.step, '\x7d' :: t.back.toList) := by
  constructor
  · intro h
    unfold read? at h
    dsimp only at h
    split at h
    · rename_i opened
      obtain ⟨tail, opens⟩ := List.isPrefixOf_iff_prefix.mp opened.2
      rw [← opens, List.drop_left] at h
      obtain ⟨⟨start, rest⟩, first, h⟩ := Option.bind_eq_some_iff.mp h
      obtain ⟨⟨step, closing⟩, second, h⟩ := Option.bind_eq_some_iff.mp h
      dsimp only at first second h
      split at h
      · split at h
        · rename_i ends
          cases h
          refine ⟨tail, opens.symm, opened.1, rfl, ?_, rest, first, ?_⟩
          · rwa [String.toList_ofList]
          · rwa [String.toList_ofList]
        · cases h
      · cases h
    · cases h
  · rintro ⟨tail, opens, filled, front, ends, rest, first, second⟩
    have opened : opening.isPrefixOf (opening ++ tail) = true :=
      List.isPrefixOf_iff_prefix.mpr (List.prefix_append _ _)
    simp [read?, opens, filled, opened, first, second, ends, ← front]

theorem read?_eq_some_iff (template : String) (t : NameTemplate) :
    read? template.toList = some t ↔ t.SpelledBy template := by
  rw [read?_iff_parts]
  constructor
  · rintro ⟨tail, opens, filled, front, ends, bounded⟩
    obtain ⟨bounds, spelled, rfl⟩ := (readBounds_iff _ _ _ _).mp bounded
    have chars : t.front.toList = template.toList.takeWhile isFrontChar := by
      rw [front, String.toList_ofList]
    refine ⟨?_, ?_, (isBack_iff _).mp ends, bounds, spelled, ?_⟩
    · intro empty
      rw [← chars, empty] at filled
      exact filled String.toList_empty
    · intro c hc
      rw [chars] at hc
      exact (isFrontChar_iff c).mp (List.mem_takeWhile_imp hc)
    · rw [chars, List.append_assoc, List.append_assoc]
      show _ = _ ++ (opening ++ _)
      rw [← opens, List.takeWhile_append_dropWhile]
  · rintro ⟨filled, isFront, ends, bounds, spelled, whole⟩
    have all : ∀ c ∈ t.front.toList, isFrontChar c := fun c hc =>
      (isFrontChar_iff c).mpr (isFront c hc)
    have split : template.toList =
        t.front.toList ++ (opening ++ (bounds ++ '\x7d' :: t.back.toList)) := by
      rw [whole, List.append_assoc, List.append_assoc]
      rfl
    obtain ⟨rest, dollar⟩ := exists_opening
    have taken : template.toList.takeWhile isFrontChar = t.front.toList := by
      rw [split, dollar, List.takeWhile_append_of_pos all, List.cons_append,
        List.takeWhile_cons_of_neg (by decide), List.append_nil]
    have left : template.toList.dropWhile isFrontChar =
        opening ++ (bounds ++ '\x7d' :: t.back.toList) := by
      rw [split, dollar, List.dropWhile_append_of_pos all, List.cons_append,
        List.dropWhile_cons_of_neg (by decide)]
    refine ⟨_, left, ?_, ?_, (isBack_iff _).mpr ends,
      (readBounds_iff _ _ _ _).mpr ⟨bounds, spelled, rfl⟩⟩
    · rw [taken]
      simpa using filled
    · rw [taken, String.ofList_toList]

end SimpleFiles.NameTemplate
