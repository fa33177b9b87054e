import SimpleFiles.NameTemplate
import SimpleFiles.Proofs.Path.Extending

/-! The names that a template gives. One that holds an iterator is written without slashes and
cannot come to be a dot or two, so its names stay in one directory. -/
namespace SimpleFiles.NameTemplate

theorem noSlash_toString (i : Int) : '/' ∉ (toString i).toList := by
  have digits : ∀ n : Nat, '/' ∉ n.repr.toList := by
    intro n slash
    rw [Nat.repr_eq_ofList_toDigits, String.toList_ofList] at slash
    have digit : '/'.isDigit = true :=
      Nat.isDigit_of_mem_toDigits (b := 10) (by decide) (by decide) slash
    cases digit
  cases i with
  | ofNat n => exact digits n
  | negSucc n =>
    show '/' ∉ ("-" ++ (n + 1).repr).toList
    rw [String.toList_append, List.mem_append, not_or]
    exact ⟨by decide, digits (n + 1)⟩

theorem noSlash_of_isBack (back : List Char) (h : isBack back = true) : '/' ∉ back := by
  have letters : ∀ cs : List Char, cs.all Char.isAlpha = true → '/' ∉ cs := by
    intro cs all slash
    exact absurd (List.all_eq_true.mp all _ slash) (by decide)
  rw [← List.takeWhile_append_dropWhile (p := Char.isAlpha) (l := back), List.mem_append, not_or]
  refine ⟨letters _ List.all_takeWhile, ?_⟩
  unfold isBack at h
  split at h
  · rename_i none
    rw [none]
    exact List.not_mem_nil
  · rename_i rest dot
    rw [dot, List.mem_cons, not_or]
    exact ⟨by decide, letters rest (Bool.and_eq_true_iff.mp h).2⟩
  · cases h

theorem shape_of_read? (template : List Char) (t : NameTemplate) (h : read? template = some t) :
    (∃ c rest, t.front.toList = c :: rest ∧ isFrontChar c = true) ∧ '/' ∉ t.front.toList ∧
      '/' ∉ t.back.toList := by
  unfold read? at h
  simp only at h
  split at h
  · rename_i opened
    simp only [Option.bind_eq_bind] at h
    obtain ⟨x, -, h⟩ := Option.bind_eq_some_iff.mp h
    obtain ⟨y, -, h⟩ := Option.bind_eq_some_iff.mp h
    split at h
    · split at h
      · rename_i back _ ends
        cases h
        have letters := List.all_eq_true.mp (List.all_takeWhile (p := isFrontChar) (l := template))
        obtain ⟨c, rest, front⟩ := List.exists_cons_of_ne_nil opened.1
        simp only [String.toList_ofList]
        refine ⟨⟨c, rest, front, letters c (by simp [front])⟩, ?_, noSlash_of_isBack back ends⟩
        intro slash
        exact absurd (letters _ slash) (by decide)
      · cases h
    · cases h
  · cases h

theorem isInner_of_names (template : String) (count : Nat) (list : List String)
    (inner : (Path.ofText template).IsInner) (h : names template count = .ok list) :
    ∀ name ∈ list, (Path.ofText name).IsInner := by
  unfold names at h
  split at h
  · split at h
    · cases h
    rename_i t read
    split at h
    · cases h
      intro name hn
      obtain ⟨i, -, rfl⟩ := List.mem_map.mp hn
      obtain ⟨⟨c, rest, front, letter⟩, noSlash, noSlash'⟩ := shape_of_read? _ t read
      refine Path.isInner_of_noSlash _ ?_ ?_
      · rw [name, String.toList_append, String.toList_append, List.mem_append, List.mem_append]
        exact not_or.mpr ⟨not_or.mpr ⟨noSlash, noSlash_toString _⟩, noSlash'⟩
      · intro up
        have first := congrArg String.toList up
        rw [name, String.toList_append, String.toList_append, front,
          show "..".toList = ['.', '.'] by decide] at first
        have dot : c = '.' := (List.cons.inj first).1
        rw [dot] at letter
        exact absurd letter (by decide)
    · cases h
  · split at h
    · cases h
    · cases h
      intro name hn
      rwa [(List.mem_replicate.mp hn).2]

end SimpleFiles.NameTemplate
