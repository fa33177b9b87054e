import Mathlib.Data.Finset.Basic
import Mathlib.Data.List.Pairwise
import SimpleFiles.Memory

/-! The variables of a run without cells: the bound names fall into classes, each
class has one value, and an assignment changes the value of a class, adds a class
or moves one name to another class. -/
namespace SimpleFiles

structure AliasClass where
  names : Finset String
  value : String
  nonempty : names.Nonempty

namespace AliasClass

def without (c : AliasClass) (name : String) : Option AliasClass :=
  if h : (c.names.erase name).Nonempty then some ⟨c.names.erase name, c.value, h⟩ else none

/-- The class, with a further name if it is the class of the target. -/
def joined (c : AliasClass) (name target : String) : AliasClass :=
  if target ∈ c.names then ⟨insert name c.names, c.value, Finset.insert_nonempty _ _⟩ else c

def valued (c : AliasClass) (name value : String) : AliasClass :=
  if name ∈ c.names then { c with value } else c

theorem without_eq_some_iff (c d : AliasClass) (name : String) :
    c.without name = some d ↔ d.names = c.names.erase name ∧ d.value = c.value := by
  unfold without
  split
  · constructor
    · intro h
      cases h
      exact ⟨rfl, rfl⟩
    · intro h
      obtain ⟨names, value, nonempty⟩ := d
      simp only [Option.some.injEq, mk.injEq]
      exact ⟨h.1.symm, h.2.symm⟩
  · rename_i h
    constructor
    · intro hn
      cases hn
    · intro hd
      exact absurd (hd.1 ▸ d.nonempty) h

theorem mem_of_without (c d : AliasClass) (name other : String)
    (h : c.without name = some d) : other ∈ d.names ↔ other ≠ name ∧ other ∈ c.names := by
  rw [((without_eq_some_iff c d name).mp h).1, Finset.mem_erase]

theorem exists_without (c : AliasClass) (name other : String) (hne : other ≠ name)
    (h : other ∈ c.names) : ∃ d, c.without name = some d := by
  have rest : (c.names.erase name).Nonempty := ⟨other, Finset.mem_erase.mpr ⟨hne, h⟩⟩
  exact ⟨⟨c.names.erase name, c.value, rest⟩, dif_pos rest⟩

theorem without_any_mem (c : AliasClass) (name other : String) :
    (c.without name).any (fun d => decide (other ∈ d.names)) =
      decide (other ≠ name ∧ other ∈ c.names) := by
  cases h : c.without name with
  | some d =>
    simp only [Option.any_some, decide_eq_decide]
    exact mem_of_without c d name other h
  | none =>
    have absent : ¬ (other ≠ name ∧ other ∈ c.names) := by
      intro hm
      obtain ⟨d, hd⟩ := exists_without c name other hm.1 hm.2
      rw [h] at hd
      cases hd
    simp only [Option.any_none]
    exact (decide_eq_false absent).symm

theorem mem_joined (c : AliasClass) (name target other : String) :
    other ∈ (c.joined name target).names ↔
      other ∈ c.names ∨ other = name ∧ target ∈ c.names := by
  unfold joined
  split
  · rename_i h
    simp only [Finset.mem_insert, h, and_true]
    exact or_comm
  · rename_i h
    simp [h]

@[simp] theorem joined_value (c : AliasClass) (name target : String) :
    (c.joined name target).value = c.value := by
  unfold joined
  split <;> rfl

@[simp] theorem valued_names (c : AliasClass) (name value : String) :
    (c.valued name value).names = c.names := by
  unfold valued
  split <;> rfl

theorem valued_value (c : AliasClass) (name value : String) :
    (c.valued name value).value = if name ∈ c.names then value else c.value := by
  unfold valued
  split <;> rfl

end AliasClass

/-- A partition of the bound names, one value to each class. -/
structure AliasStore where
  classes : List AliasClass
  disjoint : classes.Pairwise fun c d => Disjoint c.names d.names

namespace AliasStore

def empty : AliasStore := ⟨[], .nil⟩

def classOf? (store : AliasStore) (name : String) : Option AliasClass :=
  store.classes.find? fun c => name ∈ c.names

def find? (store : AliasStore) (name : String) : Option String :=
  (store.classOf? name).map AliasClass.value

def contains (store : AliasStore) (name : String) : Bool := (store.classOf? name).isSome

def get (store : AliasStore) (name : String) : Except MemoryError String :=
  match store.find? name with
  | some value => .ok value
  | none => .error (.unknownVariable name)

def areAliases (store : AliasStore) (a b : String) : Bool :=
  (store.classOf? a).any fun c => b ∈ c.names

theorem classOf?_eq_some_iff (store : AliasStore) (name : String) (c : AliasClass) :
    store.classOf? name = some c ↔ c ∈ store.classes ∧ name ∈ c.names := by
  constructor
  · intro h
    exact ⟨List.mem_of_find?_eq_some h, by simpa using List.find?_some h⟩
  · intro h
    obtain ⟨d, hd⟩ : ∃ d, store.classOf? name = some d := by
      rw [← Option.isSome_iff_exists]
      simp only [classOf?, List.find?_isSome, decide_eq_true_eq]
      exact ⟨c, h⟩
    have hn : name ∈ d.names := by simpa using List.find?_some hd
    -- classes that share a name are not disjoint, so they are the same one
    have same : c = d := by
      by_contra hne
      have : Std.Symm fun c d : AliasClass => Disjoint c.names d.names := ⟨fun _ _ h => h.symm⟩
      have apart := store.disjoint.forall h.1 (List.mem_of_find?_eq_some hd) hne
      exact Finset.disjoint_left.mp apart h.2 hn
    rw [hd, same]

def setValue (store : AliasStore) (name value : String) : AliasStore where
  classes := store.classes.map (·.valued name value)
  disjoint := by
    simp only [List.pairwise_map, AliasClass.valued_names]
    exact store.disjoint

def addClass (store : AliasStore) (name value : String) (h : store.contains name = false) :
    AliasStore where
  classes := ⟨{name}, value, Finset.singleton_nonempty name⟩ :: store.classes
  disjoint := by
    refine List.Pairwise.cons ?_ store.disjoint
    intro c hc
    rw [Finset.disjoint_singleton_left]
    intro hn
    rw [contains, (classOf?_eq_some_iff store name c).mpr ⟨hc, hn⟩] at h
    cases h

def detach (store : AliasStore) (name : String) : AliasStore where
  classes := store.classes.filterMap (·.without name)
  disjoint := by
    refine store.disjoint.filterMap _ ?_
    intro c d hcd c' hc d' hd
    rw [(AliasClass.without_eq_some_iff c c' name).mp hc |>.1,
      (AliasClass.without_eq_some_iff d d' name).mp hd |>.1]
    exact Finset.disjoint_of_subset_left (Finset.erase_subset _ _)
      (Finset.disjoint_of_subset_right (Finset.erase_subset _ _) hcd)

theorem not_mem_detach (store : AliasStore) (name : String) (c : AliasClass)
    (h : c ∈ (store.detach name).classes) : name ∉ c.names := by
  simp only [detach, List.mem_filterMap] at h
  obtain ⟨d, -, hd⟩ := h
  rw [AliasClass.mem_of_without d c name name hd]
  exact fun hn => hn.1 rfl

/-- A name leaves its class, if it had one, for that of the target. -/
def move (store : AliasStore) (name target : String) : AliasStore where
  classes := (store.detach name).classes.map (·.joined name target)
  disjoint := by
    rw [List.pairwise_map]
    refine (store.detach name).disjoint.imp_of_mem ?_
    intro c d hc hd hcd
    rw [Finset.disjoint_left] at hcd ⊢
    intro other hoc hod
    rw [AliasClass.mem_joined] at hoc hod
    have nc := not_mem_detach store name c hc
    have nd := not_mem_detach store name d hd
    rcases hoc with hoc | ⟨rfl, htc⟩
    · rcases hod with hod | ⟨rfl, htd⟩
      · exact hcd hoc hod
      · exact nc hoc
    · rcases hod with hod | ⟨-, htd⟩
      · exact nd hod
      · exact hcd htc htd

/-- A text is the new value of the class of a name, or the value of a new class. -/
def write (store : AliasStore) (name value : String) : AliasStore :=
  if h : store.contains name = false then store.addClass name value h
  else store.setValue name value

/-- Name and value are trimmed. A reference moves the name to the class it refers to. -/
def assign (store : AliasStore) (name value : String) : Except MemoryError AliasStore :=
  let name := Text.trim name
  let value := Text.trim value
  if name = reservedName then .error .reservedName
  else
    match Reference.name? value with
    | none => .ok (store.write name value)
    | some target =>
      if target = "" then .error .emptyReference
      else if store.contains target = false then .error (.undefinedAlias value)
      else if target = name then .error (.circularAssignment value)
      else .ok (store.move name target)

end AliasStore
end SimpleFiles
