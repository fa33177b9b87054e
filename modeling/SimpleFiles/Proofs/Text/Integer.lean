import Mathlib.Data.List.Induction
import Mathlib.Data.Nat.Digits.Defs
import SimpleFiles.Text.Integer

/-! Decimal numerals and the integers they stand for. -/
namespace SimpleFiles.Text

/-- Digits, at least one, that stand for a number in base ten. -/
structure IsNumeral (digits : List Char) (n : Nat) : Prop where
  filled : digits ≠ []
  isDigit : ∀ d ∈ digits, d.isDigit
  value : n = Nat.ofDigits 10 (digits.reverse.map digitValue)

inductive IsInteger : List Char → Int → Prop
  | plain {digits : List Char} {n : Nat} (h : IsNumeral digits n) : IsInteger digits n
  | plus {digits : List Char} {n : Nat} (h : IsNumeral digits n) : IsInteger ('+' :: digits) n
  | minus {digits : List Char} {n : Nat} (h : IsNumeral digits n) : IsInteger ('-' :: digits) (-n)

inductive IsNatural : List Char → Nat → Prop
  | plain {digits : List Char} {n : Nat} (h : IsNumeral digits n) : IsNatural digits n
  | plus {digits : List Char} {n : Nat} (h : IsNumeral digits n) : IsNatural ('+' :: digits) n

theorem digitsValue_eq (digits : List Char) :
    digitsValue digits = Nat.ofDigits 10 (digits.reverse.map digitValue) := by
  induction digits using List.reverseRecOn with
  | nil => rfl
  | append_singleton digits d ih =>
    have step : digitsValue (digits ++ [d]) = 10 * digitsValue digits + digitValue d := by
      rw [digitsValue, List.foldl_append]
      rfl
    rw [step, ih, List.reverse_append, List.reverse_singleton, List.singleton_append, List.map_cons,
      Nat.ofDigits_cons, Nat.add_comm]

theorem digits?_eq_some_iff (cs : List Char) (n : Nat) : digits? cs = some n ↔ IsNumeral cs n := by
  unfold digits?
  rw [Option.ite_none_right_eq_some, List.all_eq_true, Option.some.injEq, digitsValue_eq]
  constructor
  · rintro ⟨⟨filled, isDigit⟩, value⟩
    exact ⟨filled, isDigit, value.symm⟩
  · rintro ⟨filled, isDigit, value⟩
    exact ⟨⟨filled, isDigit⟩, value.symm⟩

theorem IsNumeral.not_sign {c : Char} {digits : List Char} {n : Nat}
    (h : IsNumeral (c :: digits) n) : c ≠ '-' ∧ c ≠ '+' := by
  have digit := h.isDigit c (.head _)
  constructor
  · rintro rfl
    exact absurd digit (by decide)
  · rintro rfl
    exact absurd digit (by decide)

theorem int?_eq_some_iff (cs : List Char) (n : Int) : int? cs = some n ↔ IsInteger cs n := by
  constructor
  · intro h
    unfold int? at h
    split at h
    · obtain ⟨m, hm, rfl⟩ := Option.map_eq_some_iff.mp h
      obtain ⟨k, hk, same⟩ := Option.bind_eq_some_iff.mp hm
      cases same
      exact .minus ((digits?_eq_some_iff _ _).mp hk)
    · obtain ⟨m, hm, rfl⟩ := Option.map_eq_some_iff.mp h
      exact .plus ((digits?_eq_some_iff _ _).mp hm)
    · obtain ⟨m, hm, rfl⟩ := Option.map_eq_some_iff.mp h
      exact .plain ((digits?_eq_some_iff _ _).mp hm)
  · intro h
    cases h with
    | plain h =>
      unfold int?
      split
      · exact absurd rfl h.not_sign.1
      · exact absurd rfl h.not_sign.2
      · rw [(digits?_eq_some_iff _ _).mpr h]
        rfl
    | plus h =>
      rw [int?, (digits?_eq_some_iff _ _).mpr h]
      rfl
    | minus h =>
      rw [int?, (digits?_eq_some_iff _ _).mpr h]
      rfl

theorem nat?_eq_some_iff (cs : List Char) (n : Nat) : nat? cs = some n ↔ IsNatural cs n := by
  constructor
  · intro h
    unfold nat? at h
    split at h
    · exact .plus ((digits?_eq_some_iff _ _).mp h)
    · exact .plain ((digits?_eq_some_iff _ _).mp h)
  · intro h
    cases h with
    | plain h =>
      unfold nat?
      split
      · exact absurd rfl h.not_sign.2
      · exact (digits?_eq_some_iff _ _).mpr h
    | plus h => exact (digits?_eq_some_iff _ _).mpr h

theorem int32?_eq_some_iff (s : String) (n : Int) :
    int32? s = some n ↔ IsInteger s.toList n ∧ -2 ^ 31 ≤ n ∧ n < 2 ^ 31 := by
  rw [int32?, Option.filter_eq_some_iff, int?_eq_some_iff]
  simp [Word.holds32]

theorem int64?_eq_some_iff (s : String) (n : Int) :
    int64? s = some n ↔ IsInteger s.toList n ∧ -2 ^ 63 ≤ n ∧ n < 2 ^ 63 := by
  rw [int64?, Option.filter_eq_some_iff, int?_eq_some_iff]
  simp [Word.holds64]

theorem word64?_eq_some_iff (s : String) (n : Nat) :
    word64? s = some n ↔ IsNatural s.toList n ∧ n < 2 ^ 64 := by
  rw [word64?, Option.filter_eq_some_iff, nat?_eq_some_iff, decide_eq_true_eq]
  rfl

theorem eq_of_toString_eq {a b : Int} (h : toString a = toString b) : a = b := by
  have unsigned (n : Nat) (digits : String) : n.repr ≠ "-" ++ digits := by
    intro same
    have dash : '-' ∈ n.repr.toList := by simp [same]
    rw [Nat.repr_eq_ofList_toDigits, String.toList_ofList] at dash
    exact absurd (Nat.isDigit_of_mem_toDigits (by decide) (by decide) dash) (by decide)
  have digits (m n : Nat) (same : m.repr = n.repr) : m = n := by
    rw [Nat.repr_eq_ofList_toDigits, Nat.repr_eq_ofList_toDigits, String.ofList_inj] at same
    rw [← Nat.ofDigitChars_ten_toDigits (n := m), same, Nat.ofDigitChars_ten_toDigits]
  cases a with
  | ofNat m =>
    cases b with
    | ofNat n => exact congrArg Int.ofNat (digits m n h)
    | negSucc n => exact absurd h (unsigned m _)
  | negSucc m =>
    cases b with
    | ofNat n => exact absurd h.symm (unsigned n _)
    | negSucc n =>
      have same : (m + 1).repr = (n + 1).repr := (String.append_right_inj "-").mp h
      rw [Nat.succ.inj (digits _ _ same)]

end SimpleFiles.Text
