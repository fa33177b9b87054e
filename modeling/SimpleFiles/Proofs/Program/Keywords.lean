import SimpleFiles.Proofs.Source.Programs
import SimpleFiles.Proofs.Text.Blank

/-! Keywords of actions, written and read back. Reading a keyword trims it and takes away its
colons, so the words that survive are those with no colon in front and no blank at the end. -/
namespace SimpleFiles
namespace Action

def supported : List Action := [.createFile, .createFolder, .group, .rename]

/-- No colon stands in front of the word, and no blank at its end. -/
def IsBare (w : String) : Prop :=
  w.toList.head? ≠ some ':' ∧ ∀ c ∈ w.toList.getLast?, ¬Text.isBlank c

/-- The action is supported, or its word is bare and none of theirs. -/
def IsReadable : Action → Prop
  | .unsupported w => IsBare w ∧ w ∉ supported.map word
  | _ => True

def bareWord (keyword : String) : String :=
  .ofList ((Text.trimmed keyword.toList).dropWhile (· = ':'))

theorem ofKeyword_eq (keyword : String) : ofKeyword keyword = ofWord (bareWord keyword) := rfl

theorem ofWord_cases (w : String) :
    (ofWord w ∈ supported ∧ (ofWord w).word = w) ∨
      (ofWord w = .unsupported w ∧ w ∉ supported.map word) := by
  unfold ofWord
  split
  · next h => exact .inl ⟨by simp [supported], h.symm⟩
  split
  · next h => exact .inl ⟨by simp [supported], h.symm⟩
  split
  · next h => exact .inl ⟨by simp [supported], h.symm⟩
  split
  · next h => exact .inl ⟨by simp [supported], h.symm⟩
  · exact .inr ⟨rfl, by simp_all [supported, word]⟩

theorem ofWord_eq_unsupported_iff (v w : String) :
    ofWord v = .unsupported w ↔ v = w ∧ w ∉ supported.map word := by
  rcases ofWord_cases v with ⟨there, spelled⟩ | ⟨unknown, absent⟩
  · constructor
    · intro h
      rw [h] at there
      simp [supported] at there
    · rintro ⟨rfl, absent⟩
      have listed := List.mem_map_of_mem (f := word) there
      rw [spelled] at listed
      exact absurd listed absent
  · rw [unknown, unsupported.injEq]
    constructor
    · rintro rfl
      exact ⟨rfl, absent⟩
    · exact fun h => h.1

theorem isBare_bareWord (keyword : String) : IsBare (bareWord keyword) := by
  have parts := List.takeWhile_append_dropWhile (p := (· = ':')) (l := Text.trimmed keyword.toList)
  rw [IsBare, bareWord, String.toList_ofList]
  constructor
  · intro colon
    have first := List.head?_dropWhile_not (· = ':') (Text.trimmed keyword.toList)
    simp [colon] at first
  · intro c hc
    have ends : c ∈ (Text.trimRight (Text.trimLeft keyword.toList)).getLast? := by
      rw [← Text.trimmed, ← parts, List.getLast?_append, Option.mem_def.mp hc]
      rfl
    exact Text.not_isBlank_of_getLast?_trimRight ends

theorem toList_bareWord_keyword (a : Action) :
    (bareWord a.keyword).toList = (Text.trimRight a.word.toList).dropWhile (· = ':') := by
  have colon : ¬Text.isBlank ':' := by decide
  have spelled : a.keyword.toList = ':' :: a.word.toList := by simp [keyword]
  rw [bareWord, String.toList_ofList, spelled, Text.trimmed, Text.trimLeft,
    List.dropWhile_cons_of_neg colon, Text.trimRight_cons_of_not_isBlank colon,
    List.dropWhile_cons_of_pos (by simp)]

theorem bareWord_keyword_iff (a : Action) : bareWord a.keyword = a.word ↔ IsBare a.word := by
  constructor
  · intro kept
    exact kept ▸ isBare_bareWord a.keyword
  · rintro ⟨first, last⟩
    rw [← String.toList_inj, toList_bareWord_keyword, (Text.trimRight_eq_self_iff _).mpr last]
    cases h : a.word.toList with
    | nil => rfl
    | cons c rest =>
      rw [h] at first
      exact List.dropWhile_cons_of_neg (by simpa using first)

theorem isReadable_ofKeyword (keyword : String) : (ofKeyword keyword).IsReadable := by
  rw [ofKeyword_eq]
  rcases ofWord_cases (bareWord keyword) with ⟨there, -⟩ | ⟨unknown, absent⟩
  · simp only [supported, List.mem_cons, List.not_mem_nil, or_false] at there
    rcases there with h | h | h | h <;> rw [h] <;> trivial
  · rw [unknown]
    exact ⟨isBare_bareWord keyword, absent⟩

theorem ofKeyword_keyword_eq_iff (a : Action) : ofKeyword a.keyword = a ↔ a.IsReadable := by
  cases a with
  | unsupported w =>
    rw [ofKeyword_eq, ofWord_eq_unsupported_iff]
    exact and_congr_left' (bareWord_keyword_iff (.unsupported w))
  | createFile => exact ⟨fun _ => trivial, fun _ => by decide⟩
  | createFolder => exact ⟨fun _ => trivial, fun _ => by decide⟩
  | group => exact ⟨fun _ => trivial, fun _ => by decide⟩
  | rename => exact ⟨fun _ => trivial, fun _ => by decide⟩

example : ofKeyword (unsupported ":tidy").keyword = .unsupported "tidy" ∧
    ofKeyword ": tidy" = .unsupported " tidy" := by
  decide

end Action

theorem Source.exists_spelled_of_mem {ss : List Statement} {pieces : List (List Source.Token)}
    (h : List.Forall₂ Statement.Spelled ss pieces) {s : Statement} (hs : s ∈ ss) :
    ∃ ts, s.Spelled ts := by
  induction h with
  | nil => cases hs
  | cons first _ ih =>
    rcases List.mem_cons.mp hs with rfl | later
    · exact ⟨_, first⟩
    · exact ih later

namespace Action

theorem exists_keyword_of_parse {source : String} {p : Program} {d : Instruction}
    (parsed : Source.parse source = .ok p) (declared : .instruction d ∈ p.statements) :
    ∃ keyword, d.action = ofKeyword keyword := by
  obtain ⟨pieces, spelled, -⟩ := Source.renderedAs_of_parse parsed
  obtain ⟨ts, written⟩ := Source.exists_spelled_of_mem spelled declared
  obtain ⟨-, -, word, -, action, -⟩ := (Source.spelled_instruction_iff d ts).mp written
  exact ⟨":" ++ word, action⟩

/-- An action is read back from its keyword if and only if it is readable. Whatever is read from a
keyword is, and so is the action of every instruction that is parsed. -/
theorem keyword_roundTrip :
    (∀ a : Action, ofKeyword a.keyword = a ↔ a.IsReadable) ∧
    (∀ keyword, ofKeyword (ofKeyword keyword).keyword = ofKeyword keyword) ∧
    ∀ source p, Source.parse source = .ok p → ∀ d, .instruction d ∈ p.statements →
      ofKeyword d.action.keyword = d.action := by
  have again (keyword : String) : ofKeyword (ofKeyword keyword).keyword = ofKeyword keyword :=
    (ofKeyword_keyword_eq_iff _).mpr (isReadable_ofKeyword keyword)
  refine ⟨ofKeyword_keyword_eq_iff, again, ?_⟩
  intro source p parsed d declared
  obtain ⟨keyword, action⟩ := exists_keyword_of_parse parsed declared
  rw [action, again]

def tidying : Instruction := ⟨"a", .unsupported "tidy", [], ⟨6, 22, 0, 6, 0, 22⟩⟩

theorem keyword_roundTrip_tidying :
    Source.parse "BEGIN INST a -> :tidy;END" = .ok ⟨[.instruction tidying], ⟨0, 25, 0, 0, 0, 25⟩⟩ ∧
      ofKeyword tidying.action.keyword = tidying.action := by
  have parsed : Source.parse "BEGIN INST a -> :tidy;END" =
      .ok ⟨[.instruction tidying], ⟨0, 25, 0, 0, 0, 25⟩⟩ := by decide +kernel
  exact ⟨parsed, keyword_roundTrip.2.2 _ _ parsed tidying (.head [])⟩

end Action
end SimpleFiles
