/-! A text written as a dollar sign and a name in braces refers to a variable. -/
namespace SimpleFiles.Reference

/-- What stands between the braces, when the whole text is a reference. -/
def inner? : List Char → Option (List Char)
  | '$' :: '\x7b' :: rest => if rest.getLast? = some '\x7d' then some rest.dropLast else none
  | _ => none

def name? (value : String) : Option String := (inner? value.toList).map .ofList

def isReference (value : String) : Bool := (name? value).isSome

def ofName (name : String) : String := "$\x7b" ++ name ++ "\x7d"

theorem inner?_eq_some_iff (cs inner : List Char) :
    inner? cs = some inner ↔ cs = '$' :: '\x7b' :: (inner ++ ['\x7d']) := by
  constructor
  · intro h
    unfold inner? at h
    split at h
    · rename_i rest
      by_cases hl : rest.getLast? = some '\x7d'
      · rw [if_pos hl, Option.some.injEq] at h
        obtain ⟨front, rfl⟩ := List.getLast?_eq_some_iff.mp hl
        rw [← h, List.dropLast_concat]
      · rw [if_neg hl] at h
        cases h
    · cases h
  · intro h
    simp [h, inner?]

theorem name?_eq_some_iff (value name : String) : name? value = some name ↔ value = ofName name := by
  have spelled : ofName name = .ofList ('$' :: '\x7b' :: (name.toList ++ ['\x7d'])) := by
    simp [ofName, String.ext_iff]
  simp only [name?, Option.map_eq_some_iff, inner?_eq_some_iff, spelled]
  constructor
  · rintro ⟨inner, hv, rfl⟩
    rw [String.toList_ofList, ← hv, String.ofList_toList]
  · rintro rfl
    exact ⟨name.toList, String.toList_ofList, String.ofList_toList⟩

end SimpleFiles.Reference
