import SimpleFiles.Text.Blank

/-! The words of a text, told by how the text is written: words one after the other, with blanks
between any two of them and around them all. Every text is written so in exactly one way. -/
namespace SimpleFiles.Text

structure IsSolid (word : String) : Prop where
  filled : word ≠ ""
  unbroken : ∀ c ∈ word.toList, isBlank c = false

inductive Writes : List String → List Char → Prop
  | nil : Writes [] []
  | blank {words : List String} {c : Char} {cs : List Char} (h : isBlank c = true)
      (others : Writes words cs) : Writes words (c :: cs)
  | word {word : String} {words : List String} {cs : List Char} (solid : IsSolid word)
      (apart : ∀ c ∈ cs.head?, isBlank c = true) (others : Writes words cs) :
      Writes (word :: words) (word.toList ++ cs)

theorem words_cons_of_isBlank {c : Char} (h : isBlank c = true) (cs : List Char) :
    words (.ofList (c :: cs)) = words (.ofList cs) := by
  simp [words, List.splitOnP_cons_eq_if_modifyHead, h]

theorem words_append_of_isSolid {word : String} (solid : IsSolid word) {cs : List Char}
    (apart : ∀ c ∈ cs.head?, isBlank c = true) :
    words (.ofList (word.toList ++ cs)) = word :: words (.ofList cs) := by
  have filled : word.toList ≠ [] := by simpa using solid.filled
  cases cs with
  | nil => simp [words, List.splitOnP_eq_singleton solid.unbroken, solid.filled]
  | cons c rest =>
    have blank : isBlank c = true := apart c rfl
    rw [words_cons_of_isBlank blank, words, words, String.toList_ofList, String.toList_ofList,
      List.splitOnP_append_cons_of_forall_mem solid.unbroken c blank,
      List.filter_cons_of_pos (by simpa using solid.filled), List.map_cons, String.ofList_toList]

theorem words_of_writes {ws : List String} {cs : List Char} (h : Writes ws cs) :
    words (.ofList cs) = ws := by
  induction h with
  | nil => rfl
  | blank h _ ih => rw [words_cons_of_isBlank h, ih]
  | word solid apart _ ih => rw [words_append_of_isSolid solid apart, ih]

theorem Writes.exists_cons {c : Char} (solid : isBlank c = false) {ws : List String}
    {cs : List Char} (h : Writes ws cs) : ∃ ws, Writes ws (c :: cs) := by
  by_cases before : ∀ d ∈ cs.head?, isBlank d = true
  · have alone : IsSolid (.ofList [c]) := ⟨by simp, by simpa using solid⟩
    have written := Writes.word alone before h
    rw [String.toList_ofList, List.singleton_append] at written
    exact ⟨_, written⟩
  · cases h with
    | nil => exact absurd nofun before
    | blank first others =>
      refine absurd (fun d hd => ?_) before
      rwa [← Option.some.inj hd]
    | @word word words cs first apart others =>
      have longer : IsSolid (.ofList (c :: word.toList)) :=
        ⟨by simp, by simpa using ⟨solid, first.unbroken⟩⟩
      have written := Writes.word longer apart others
      rw [String.toList_ofList, List.cons_append] at written
      exact ⟨_, written⟩

theorem exists_writes (cs : List Char) : ∃ ws, Writes ws cs := by
  induction cs with
  | nil => exact ⟨[], .nil⟩
  | cons c rest ih =>
    obtain ⟨ws, writes⟩ := ih
    cases blank : isBlank c with
    | true => exact ⟨ws, .blank blank writes⟩
    | false => exact writes.exists_cons blank

theorem words_eq_iff (s : String) (ws : List String) : words s = ws ↔ Writes ws s.toList := by
  obtain ⟨found, writes⟩ := exists_writes s.toList
  have same := words_of_writes writes
  rw [String.ofList_toList] at same
  constructor
  · rintro rfl
    rwa [same]
  · intro h
    rw [← words_of_writes h, String.ofList_toList]

end SimpleFiles.Text
