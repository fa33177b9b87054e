import Mathlib.Data.List.Find
import SimpleFiles.Proofs.Memory.AliasStore

/-! Memory behaves like a partition of its names. Either side is known by the value
of each name and by which names are aliases, and each step changes these alike. -/
namespace SimpleFiles

namespace AliasStore

theorem contains_eq (store : AliasStore) (name : String) :
    store.contains name = (store.find? name).isSome := by
  simp [contains, find?]

theorem areAliases_eq_true_iff (store : AliasStore) (a b : String) :
    store.areAliases a b = true ↔
      ∃ c, store.classOf? a = some c ∧ store.classOf? b = some c := by
  unfold areAliases
  simp only [Option.any_eq_true, decide_eq_true_eq]
  constructor
  · rintro ⟨c, hc, hb⟩
    have hm := ((classOf?_eq_some_iff store a c).mp hc).1
    exact ⟨c, hc, (classOf?_eq_some_iff store b c).mpr ⟨hm, hb⟩⟩
  · rintro ⟨c, ha, hb⟩
    exact ⟨c, ha, ((classOf?_eq_some_iff store b c).mp hb).2⟩

theorem areAliases_comm (store : AliasStore) (a b : String) :
    store.areAliases a b = store.areAliases b a := by
  rw [Bool.eq_iff_iff, areAliases_eq_true_iff, areAliases_eq_true_iff]
  constructor <;> exact fun ⟨c, ha, hb⟩ => ⟨c, hb, ha⟩

section
variable (store : AliasStore) (name value target : String)

theorem classOf?_setValue (other : String) :
    (store.setValue name value).classOf? other =
      (store.classOf? other).map (·.valued name value) := by
  simp only [classOf?, setValue, List.find?_map]
  congr 2
  funext c
  simp

theorem find?_setValue (other : String) :
    (store.setValue name value).find? other =
      if store.areAliases name other then some value else store.find? other := by
  rw [areAliases_comm]
  unfold find? areAliases
  rw [classOf?_setValue]
  cases store.classOf? other with
  | none => rfl
  | some c =>
    simp only [Option.map_some, Option.any_some, decide_eq_true_eq, AliasClass.valued_value]
    split <;> rfl

theorem areAliases_setValue (a b : String) :
    (store.setValue name value).areAliases a b = store.areAliases a b := by
  unfold areAliases
  rw [classOf?_setValue]
  cases store.classOf? a <;> simp

theorem classOf?_addClass (h : store.contains name = false) (other : String) :
    (store.addClass name value h).classOf? other =
      if other = name then some ⟨{name}, value, Finset.singleton_nonempty name⟩
      else store.classOf? other := by
  unfold classOf? addClass
  by_cases ho : other = name
  · simp [ho]
  · simp [ho]

theorem find?_addClass (h : store.contains name = false) (other : String) :
    (store.addClass name value h).find? other =
      if other = name then some value else store.find? other := by
  unfold find?
  rw [classOf?_addClass]
  split <;> rfl

theorem areAliases_addClass (h : store.contains name = false) (a b : String) :
    (store.addClass name value h).areAliases a b =
      if a = name then decide (b = name) else store.areAliases a b := by
  unfold areAliases
  rw [classOf?_addClass]
  split <;> simp

theorem classOf?_detach (other : String) :
    (store.detach name).classOf? other =
      if other = name then none else (store.classOf? other).bind (·.without name) := by
  simp only [classOf?, detach, List.find?_filterMap, AliasClass.without_any_mem]
  by_cases ho : other = name
  · have none : store.classes.find? (fun _ => false) = none := by simp
    simp [ho, none]
  · simp [ho]

theorem classOf?_move (hne : target ≠ name) (other : String) :
    (store.move name target).classOf? other =
      ((store.classOf? (if other = name then target else other)).bind (·.without name)).map
        (·.joined name target) := by
  have pull : ∀ moved, moved ≠ name → (store.classOf? moved).bind (·.without name) =
      (store.detach name).classOf? moved := by
    intro moved hm
    rw [classOf?_detach, if_neg hm]
  have hm : (if other = name then target else other) ≠ name := by
    split <;> assumption
  rw [pull _ hm]
  simp only [classOf?, move, List.find?_map]
  congr 1
  apply List.find?_congr
  intro c hc
  have absent := not_mem_detach store name c hc
  simp only [Function.comp_apply, AliasClass.mem_joined, decide_eq_decide]
  by_cases ho : other = name
  · simp [ho, absent]
  · simp [ho]

theorem find?_move (hne : target ≠ name) (other : String) :
    (store.move name target).find? other =
      store.find? (if other = name then target else other) := by
  have hm : (if other = name then target else other) ≠ name := by
    split <;> assumption
  unfold find?
  rw [classOf?_move store name target hne]
  generalize (if other = name then target else other) = moved at hm ⊢
  cases h : store.classOf? moved with
  | none => rfl
  | some c =>
    have inside := ((classOf?_eq_some_iff store moved c).mp h).2
    obtain ⟨d, hd⟩ := AliasClass.exists_without c name moved hm inside
    simp only [Option.bind_some, hd, Option.map_some, AliasClass.joined_value, Option.some.injEq]
    exact ((AliasClass.without_eq_some_iff c d name).mp hd).2

theorem areAliases_move (hne : target ≠ name) (a b : String) :
    (store.move name target).areAliases a b =
      store.areAliases (if a = name then target else a) (if b = name then target else b) := by
  have hm : (if a = name then target else a) ≠ name := by
    split <;> assumption
  unfold areAliases
  rw [classOf?_move store name target hne]
  generalize (if a = name then target else a) = moved at hm ⊢
  cases h : store.classOf? moved with
  | none => rfl
  | some c =>
    have inside := ((classOf?_eq_some_iff store moved c).mp h).2
    obtain ⟨d, hd⟩ := AliasClass.exists_without c name moved hm inside
    simp only [Option.bind_some, hd, Option.map_some, Option.any_some, AliasClass.mem_joined,
      AliasClass.mem_of_without c d name _ hd, decide_eq_decide]
    by_cases hb : b = name
    · simp [hb, hne]
    · simp [hb]

end
end AliasStore

namespace Environment

def InRange (env : Environment) : Prop :=
  ∀ name cell, env.names.find? name = some cell → cell < env.cells.length

theorem areAliases_eq_true_iff (env : Environment) (a b : String) :
    env.areAliases a b = true ↔
      ∃ cell, env.names.find? a = some cell ∧ env.names.find? b = some cell := by
  unfold areAliases
  cases env.names.find? a with
  | none => simp
  | some x =>
    cases env.names.find? b with
    | none => simp
    | some y =>
      simp only [Option.some.injEq, beq_iff_eq, exists_eq_left']
      exact eq_comm

theorem find?_eq_of_areAliases (env : Environment) (a b : String) (h : env.areAliases a b = true) :
    env.find? a = env.find? b := by
  obtain ⟨cell, ha, hb⟩ := (areAliases_eq_true_iff env a b).mp h
  rw [find?, find?, ha, hb]

theorem contains_eq (env : Environment) (hr : env.InRange) (name : String) :
    env.contains name = (env.find? name).isSome := by
  unfold contains NameTable.contains find?
  cases h : env.names.find? name with
  | none => rfl
  | some cell => simp [List.getElem?_eq_getElem (hr name cell h)]

section
variable (env : Environment) (hr : env.InRange) (name value target : String)

include hr in
theorem write_of_bound (hb : env.contains name = true) :
    (env.write name value).InRange ∧
      (∀ other, (env.write name value).find? other =
        if env.areAliases name other then some value else env.find? other) ∧
      ∀ a b, (env.write name value).areAliases a b = env.areAliases a b := by
  obtain ⟨cell, hc⟩ := Option.isSome_iff_exists.mp hb
  have written : env.write name value = { env with cells := env.cells.set cell value } := by
    rw [write, hc]
  rw [written]
  refine ⟨?_, ?_, fun a b => rfl⟩
  · intro other c ho
    rw [List.length_set]
    exact hr other c ho
  · intro other
    unfold find?
    cases ho : env.names.find? other with
    | none => simp [areAliases, hc, ho]
    | some c =>
      have inside := hr other c ho
      by_cases same : cell = c
      · simp [areAliases, hc, ho, same, inside]
      · simp [areAliases, hc, ho, same]

include hr in
theorem write_of_unbound (hb : env.contains name = false) :
    (env.write name value).InRange ∧
      (∀ other, (env.write name value).find? other =
        if other = name then some value else env.find? other) ∧
      ∀ a b, (env.write name value).areAliases a b =
        if a = name then decide (b = name) else env.areAliases a b := by
  have hn : env.names.find? name = none := by
    simpa [contains, NameTable.contains] using hb
  have written : env.write name value =
      ⟨env.cells ++ [value], env.names.insert name env.cells.length⟩ := by
    rw [write, hn]
  have old : ∀ other cell, env.names.find? other = some cell → cell ≠ env.cells.length :=
    fun other cell ho => Nat.ne_of_lt (hr other cell ho)
  rw [written]
  refine ⟨?_, ?_, ?_⟩
  · intro other c ho
    rw [NameTable.find?_insert] at ho
    rw [List.length_append, List.length_singleton]
    by_cases hs : other = name
    · rw [if_pos hs, Option.some.injEq] at ho
      omega
    · rw [if_neg hs] at ho
      have := hr other c ho
      omega
  · intro other
    unfold find?
    rw [NameTable.find?_insert]
    by_cases hs : other = name
    · simp [hs]
    · rw [if_neg hs, if_neg hs]
      cases ho : env.names.find? other with
      | none => rfl
      | some c => simp [List.getElem?_append_left (hr other c ho)]
  · intro a b
    unfold areAliases
    rw [NameTable.find?_insert, NameTable.find?_insert]
    by_cases ha : a = name
    · by_cases hs : b = name
      · simp [ha, hs]
      · cases ho : env.names.find? b with
        | none => simp [ha, hs]
        | some c => simpa [ha, hs, ho] using (old b c ho).symm
    · by_cases hs : b = name
      · cases ho : env.names.find? a with
        | none => simp [ha]
        | some c => simpa [ha, hs, ho, hn] using old a c ho
      · simp [ha, hs]

include hr in
theorem bind_to_target (cell : Nat) (ht : env.names.find? target = some cell) :
    InRange { env with names := env.names.insert name cell } ∧
      (∀ other, find? { env with names := env.names.insert name cell } other =
        env.find? (if other = name then target else other)) ∧
      ∀ a b, areAliases { env with names := env.names.insert name cell } a b =
        env.areAliases (if a = name then target else a) (if b = name then target else b) := by
  have reads : ∀ other, (env.names.insert name cell).find? other =
      env.names.find? (if other = name then target else other) := by
    intro other
    rw [NameTable.find?_insert]
    split
    · exact ht.symm
    · rfl
  refine ⟨?_, ?_, ?_⟩
  · intro other c ho
    rw [reads] at ho
    exact hr _ c ho
  · intro other
    simp only [find?, reads]
  · intro a b
    simp only [areAliases, reads]

end
end Environment

end SimpleFiles
