import SimpleFiles.FileName
import SimpleFiles.Proofs.Text.Case

/-! A name that was renamed once keeps its form when it is renamed again, and a name
that may stand in a path may stand there after it was renamed. -/
namespace SimpleFiles

namespace FileName

open Text

theorem aroundLastDot?_of_dot (stem after : List Char) (h : '.' ∉ after) :
    aroundLastDot? (stem ++ '.' :: after) = some (stem, after) := by
  have reversed : (stem ++ '.' :: after).reverse = after.reverse ++ '.' :: stem.reverse := by
    simp
  have clear : ∀ c ∈ after.reverse, decide (c ≠ '.') = true := by
    intro c hc
    rw [decide_eq_true_eq]
    rintro rfl
    exact h (List.mem_reverse.mp hc)
  unfold aroundLastDot?
  rw [reversed, List.dropWhile_append_of_pos clear, List.takeWhile_append_of_pos clear]
  simp

theorem aroundLastDot?_of_no_dot (name : List Char) (h : '.' ∉ name) :
    aroundLastDot? name = none := by
  have clear : ∀ c ∈ name.reverse, decide (c ≠ '.') = true := by
    intro c hc
    rw [decide_eq_true_eq]
    rintro rfl
    exact h (List.mem_reverse.mp hc)
  have none : (name.reverse ++ []).dropWhile (· ≠ '.') = [].dropWhile (· ≠ '.') :=
    List.dropWhile_append_of_pos clear
  rw [List.append_nil] at none
  unfold aroundLastDot?
  rw [none]
  rfl

theorem split_of_extension (stem after : List Char) (hne : after ≠ []) (h : '.' ∉ after) :
    split (stem ++ '.' :: after) = (stem, '.' :: after) := by
  unfold split
  rw [aroundLastDot?_of_dot stem after h]
  cases after with
  | nil => exact absurd rfl hne
  | cons c rest => rfl

theorem split_of_stem (name : List Char) (h : '.' ∉ name ∨ ∃ front, name = front ++ ['.']) :
    split name = (name, []) := by
  unfold split
  rcases h with none | ⟨front, rfl⟩
  · rw [aroundLastDot?_of_no_dot name none]
  · rw [aroundLastDot?_of_dot front [] List.not_mem_nil]

theorem stem_or_extension (name : List Char) :
    ('.' ∉ name ∨ ∃ front, name = front ++ ['.']) ∨
      ∃ stem after, name = stem ++ '.' :: after ∧ after ≠ [] ∧ '.' ∉ after := by
  by_cases hd : '.' ∈ name
  · obtain ⟨after, stem, reversed, clear⟩ :=
      List.eq_append_cons_of_mem (List.mem_reverse.mpr hd)
    have written : name = stem.reverse ++ '.' :: after.reverse := by
      rw [← List.reverse_reverse name, reversed]
      simp
    cases after with
    | nil => exact .inl (.inr ⟨stem.reverse, written⟩)
    | cons c rest =>
      refine .inr ⟨stem.reverse, (c :: rest).reverse, written, by simp, ?_⟩
      rw [List.mem_reverse]
      exact clear
  · exact .inl (.inl hd)

theorem recased_apply (mode : CaseMode) (s : String) :
    Recased s.toList (mode.apply s).toList := by
  cases mode with
  | upper => exact recased_upper s
  | lower => exact recased_lower s

theorem apply_apply (mode : CaseMode) (s : String) :
    mode.apply (mode.apply s) = mode.apply s := by
  cases mode with
  | upper => exact upper_upper s
  | lower => exact lower_lower s

theorem renamed_of_stem (mode : CaseMode) (name : String)
    (h : '.' ∉ name.toList ∨ ∃ front, name.toList = front ++ ['.']) :
    renamed mode name = mode.apply name := by
  rw [renamed, split_of_stem name.toList h]
  simp only [String.ofList_toList, String.ofList_nil, String.append_empty]

theorem toList_renamed_of_extension (mode : CaseMode) {name : String} {stem after : List Char}
    (written : name.toList = stem ++ '.' :: after) (hne : after ≠ []) (h : '.' ∉ after) :
    (renamed mode name).toList = (mode.apply (.ofList stem)).toList ++ '.' :: after := by
  rw [renamed, written, split_of_extension stem after hne h, String.toList_append,
    String.toList_ofList]

theorem stem_apply (mode : CaseMode) (name : String)
    (h : '.' ∉ name.toList ∨ ∃ front, name.toList = front ++ ['.']) :
    '.' ∉ (mode.apply name).toList ∨ ∃ front, (mode.apply name).toList = front ++ ['.'] := by
  have recased := recased_apply mode name
  rcases h with none | ⟨front, last⟩
  · exact .inl fun hd => none ((recased.mem_iff '.' (by decide)).mp hd)
  · rw [last] at recased
    exact .inr (recased.of_concat (by decide))

theorem renamed_renamed (mode : CaseMode) (name : String) :
    renamed mode (renamed mode name) = renamed mode name := by
  rcases stem_or_extension name.toList with stem | ⟨stem, after, written, hne, h⟩
  · rw [renamed_of_stem mode name stem, renamed_of_stem mode _ (stem_apply mode name stem),
      apply_apply]
  · have once := toList_renamed_of_extension mode written hne h
    rw [← String.toList_inj, toList_renamed_of_extension mode once hne h, String.ofList_toList,
      apply_apply, once]

theorem recased_renamed (mode : CaseMode) (name : String) :
    Recased name.toList (renamed mode name).toList := by
  rcases stem_or_extension name.toList with stem | ⟨stem, after, written, hne, h⟩
  · rw [renamed_of_stem mode name stem]
    exact recased_apply mode name
  · have front := recased_apply mode (.ofList stem)
    rw [String.toList_ofList] at front
    rw [toList_renamed_of_extension mode written hne h, written]
    exact front.append (.refl _)

end FileName

/-- What may stand between two slashes as the name of an entry. -/
structure IsEntryName (name : String) : Prop where
  filled : name ≠ ""
  notCurrent : name ≠ "."
  notParent : name ≠ ".."
  noSlash : '/' ∉ name.toList
  noZero : '\x00' ∉ name.toList

instance (name : String) : Decidable (IsEntryName name) :=
  decidable_of_iff (name ≠ "" ∧ name ≠ "." ∧ name ≠ ".." ∧ '/' ∉ name.toList ∧
      '\x00' ∉ name.toList)
    ⟨fun ⟨filled, notCurrent, notParent, noSlash, noZero⟩ =>
        ⟨filled, notCurrent, notParent, noSlash, noZero⟩,
      fun h => ⟨h.filled, h.notCurrent, h.notParent, h.noSlash, h.noZero⟩⟩

theorem IsEntryName.renamed {name : String} (h : IsEntryName name) (mode : CaseMode) :
    IsEntryName (FileName.renamed mode name) := by
  have recased := FileName.recased_renamed mode name
  refine ⟨?_, ?_, ?_, ?_, ?_⟩
  · intro empty
    rw [empty] at recased
    exact h.filled (String.toList_eq_nil_iff.mp (recased.nil_iff.mp rfl))
  · intro dot
    have dots : Text.Recased name.toList ['.'] := by
      rw [dot] at recased
      exact recased
    obtain ⟨rest, spelled, after⟩ := dots.of_cons (by decide)
    rw [after.nil_iff.mp rfl] at spelled
    exact h.notCurrent (String.toList_inj.mp spelled)
  · intro dot
    have dots : Text.Recased name.toList ['.', '.'] := by
      rw [dot] at recased
      exact recased
    obtain ⟨rest, spelled, after⟩ := dots.of_cons (by decide)
    obtain ⟨rest', spelled', after'⟩ := after.of_cons (by decide)
    rw [spelled', after'.nil_iff.mp rfl] at spelled
    exact h.notParent (String.toList_inj.mp spelled)
  · exact fun hs => h.noSlash ((recased.mem_iff '/' (by decide)).mp hs)
  · exact fun hz => h.noZero ((recased.mem_iff '\x00' (by decide)).mp hz)

end SimpleFiles
