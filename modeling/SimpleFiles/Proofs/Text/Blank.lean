import Mathlib.Data.List.DropRight
import SimpleFiles.Text.Blank

/-! Texts that neither start nor end with a blank. -/
namespace SimpleFiles.Text

def IsTrimmed (s : String) : Prop :=
  (∀ c ∈ s.toList.head?, ¬isBlank c) ∧ ∀ c ∈ s.toList.getLast?, ¬isBlank c

theorem not_isBlank_of_head?_trimLeft {l : List Char} {c : Char} (h : c ∈ (trimLeft l).head?) :
    ¬isBlank c := by
  have first := List.head?_dropWhile_not isBlank l
  rw [← trimLeft, Option.mem_def.mp h] at first
  exact Bool.eq_false_iff.mp first

theorem trimRight_cons_of_not_isBlank {c : Char} (h : ¬isBlank c) (cs : List Char) :
    trimRight (c :: cs) = c :: trimRight cs := by
  rw [trimRight, trimRight, List.reverse_cons, List.dropWhile_append]
  split
  · next none => simp [List.isEmpty_iff.mp none, h]
  · simp

theorem trimRight_eq_self_iff (cs : List Char) :
    trimRight cs = cs ↔ ∀ c ∈ cs.getLast?, ¬isBlank c := by
  have last := List.rdropWhile_eq_self_iff (p := isBlank) (l := cs)
  rw [List.rdropWhile] at last
  rw [trimRight, last]
  constructor
  · intro h c hc
    obtain ⟨front, rfl⟩ := List.getLast?_eq_some_iff.mp hc
    simpa using h (by simp)
  · intro h filled
    exact h _ (List.getLast?_eq_some_getLast filled)

theorem not_isBlank_of_getLast?_trimRight {cs : List Char} {c : Char}
    (h : c ∈ (trimRight cs).getLast?) : ¬isBlank c := by
  rw [trimRight, List.getLast?_reverse] at h
  exact not_isBlank_of_head?_trimLeft h

theorem exists_padding (cs : List Char) : ∃ before after,
    (∀ c ∈ before, isBlank c) ∧ (∀ c ∈ after, isBlank c) ∧ cs = before ++ trimmed cs ++ after := by
  refine ⟨cs.takeWhile isBlank, (trimLeft cs).rtakeWhile isBlank,
    fun c hc => List.mem_takeWhile_imp hc, fun c hc => List.mem_rtakeWhile_imp hc, ?_⟩
  have right : trimmed cs ++ (trimLeft cs).rtakeWhile isBlank = trimLeft cs :=
    List.rdropWhile_append_rtakeWhile
  rw [List.append_assoc, right]
  exact List.takeWhile_append_dropWhile.symm

theorem trimmed_padded {s : String} (h : IsTrimmed s) {before after : List Char}
    (hbefore : ∀ c ∈ before, isBlank c) (hafter : ∀ c ∈ after, isBlank c) :
    trimmed (before ++ s.toList ++ after) = s.toList := by
  obtain ⟨first, last⟩ := h
  have left : trimLeft (before ++ s.toList ++ after) = trimLeft (s.toList ++ after) := by
    rw [trimLeft, List.append_assoc, List.dropWhile_append_of_pos hbefore, trimLeft]
  have right : trimRight (s.toList ++ after) = s.toList := by
    rw [trimRight, List.reverse_append, List.dropWhile_append_of_pos (by simpa using hafter)]
    exact (trimRight_eq_self_iff s.toList).mpr last
  rw [trimmed, left]
  cases hs : s.toList with
  | nil =>
    have gone : trimLeft after = [] := List.dropWhile_eq_nil_iff.mpr hafter
    rw [List.nil_append, gone]
    rfl
  | cons c rest =>
    have solid : ¬isBlank c := first c (by rw [hs]; rfl)
    rw [List.cons_append, trimLeft, List.dropWhile_cons_of_neg solid, ← List.cons_append, ← hs,
      right]

theorem trimmed_eq_nil_iff (cs : List Char) : trimmed cs = [] ↔ ∀ c ∈ cs, isBlank c := by
  constructor
  · intro gone
    obtain ⟨before, after, hbefore, hafter, whole⟩ := exists_padding cs
    rw [gone, List.append_nil] at whole
    rw [whole]
    exact List.forall_mem_append.mpr ⟨hbefore, hafter⟩
  · intro blank
    have empty : IsTrimmed "" := ⟨nofun, nofun⟩
    have padded : trimmed (cs ++ "".toList ++ []) = "".toList := trimmed_padded empty blank nofun
    simpa using padded

theorem isTrimmed_trim (s : String) : IsTrimmed (trim s) := by
  rw [IsTrimmed, trim, String.toList_ofList, trimmed]
  constructor
  · intro c hc
    obtain ⟨rest, whole⟩ : trimRight (trimLeft s.toList) <+: trimLeft s.toList :=
      List.rdropWhile_prefix isBlank (trimLeft s.toList)
    apply not_isBlank_of_head?_trimLeft (l := s.toList)
    rw [← whole, List.head?_append, Option.mem_def.mp hc]
    rfl
  · exact fun c hc => not_isBlank_of_getLast?_trimRight hc

end SimpleFiles.Text
