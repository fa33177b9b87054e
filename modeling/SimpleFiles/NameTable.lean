/-! A table holds at most one value under each name. -/
namespace SimpleFiles

structure NameTable (α : Type) where
  entries : List (String × α) := []
deriving DecidableEq, Repr, Inhabited

namespace NameTable

def empty : NameTable α := {}

def find? (t : NameTable α) (name : String) : Option α := t.entries.lookup name

def contains (t : NameTable α) (name : String) : Bool := (t.find? name).isSome

def insert (t : NameTable α) (name : String) (value : α) : NameTable α :=
  ⟨(name, value) :: t.entries.filter (·.1 ≠ name)⟩

@[simp] theorem find?_empty (name : String) : (empty : NameTable α).find? name = none := rfl

private theorem lookup_filter_ne (entries : List (String × α)) {name other : String}
    (h : other ≠ name) :
    (entries.filter (·.1 ≠ name)).lookup other = entries.lookup other := by
  induction entries with
  | nil => rfl
  | cons e rest ih =>
    obtain ⟨key, value⟩ := e
    by_cases hk : key = name
    · have hb : (other == key) = false := by simpa [hk] using h
      rw [List.filter_cons_of_neg (by simpa using hk), ih, List.lookup_cons, hb]
    · rw [List.filter_cons_of_pos (by simpa using hk), List.lookup_cons, List.lookup_cons, ih]

theorem find?_insert (t : NameTable α) (name other : String) (value : α) :
    (t.insert name value).find? other = if other = name then some value else t.find? other := by
  by_cases h : other = name
  · simp [insert, find?, h]
  · have hb : (other == name) = false := by simpa using h
    rw [if_neg h, insert, find?, List.lookup_cons, hb]
    exact lookup_filter_ne t.entries h

theorem contains_insert (t : NameTable α) (name other : String) (value : α) :
    (t.insert name value).contains other = true ↔ other = name ∨ t.contains other = true := by
  rw [contains, find?_insert]
  by_cases same : other = name
  · simp [same]
  · simp [same, contains]

end NameTable
end SimpleFiles
