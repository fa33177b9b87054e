import SimpleFiles.Proofs.Memory.Aliases

/-! Every history of assignments and clearings leaves the memory with the answers of
the partition, failing where the partition fails. -/
namespace SimpleFiles

/-- Why the text cannot be assigned to the name, given which names are bound. -/
inductive AssignmentFault (bound : String → Bool) (name value : String) : MemoryError → Prop where
  | reserved : name = reservedName → AssignmentFault bound name value .reservedName
  | empty : name ≠ reservedName → value = Reference.ofName "" →
    AssignmentFault bound name value .emptyReference
  | undefined (target : String) : name ≠ reservedName → target ≠ "" →
    value = Reference.ofName target → bound target = false →
    AssignmentFault bound name value (.undefinedAlias value)
  | circular : name ≠ reservedName → name ≠ "" → value = Reference.ofName name →
    bound name = true → AssignmentFault bound name value (.circularAssignment value)

/-- What stops no assignment: a literal, or a reference to another name that is bound. -/
inductive Assignable (bound : String → Bool) (name value : String) : Prop where
  | literal : name ≠ reservedName → Reference.name? value = none → Assignable bound name value
  | reference (target : String) : name ≠ reservedName → target ≠ "" →
    Reference.name? value = some target → bound target = true → target ≠ name →
    Assignable bound name value

theorem assignable_or_fault (bound : String → Bool) (name value : String) :
    Assignable bound name value ∨ ∃ e, AssignmentFault bound name value e := by
  by_cases hr : name = reservedName
  · exact .inr ⟨_, .reserved hr⟩
  · cases hv : Reference.name? value with
    | none => exact .inl (.literal hr hv)
    | some target =>
      have spelled := (Reference.name?_eq_some_iff value target).mp hv
      by_cases he : target = ""
      · exact .inr ⟨_, .empty hr (he ▸ spelled)⟩
      · cases hb : bound target with
        | false => exact .inr ⟨_, .undefined target hr he spelled hb⟩
        | true =>
          by_cases hs : target = name
          · subst hs
            exact .inr ⟨_, .circular hr he spelled hb⟩
          · exact .inl (.reference target hr he hv hb hs)

namespace Environment

theorem assign_of_fault (env : Environment) (name value : String) (e : MemoryError)
    (h : AssignmentFault env.contains (Text.trim name) (Text.trim value) e) :
    env.assign name value = .error e := by
  unfold assign
  cases h with
  | reserved hr => simp only [hr, if_true]
  | empty hr hv =>
    have hn := (Reference.name?_eq_some_iff _ _).mpr hv
    simp only [if_neg hr, hn, if_true]
  | undefined target hr he hv hb =>
    have hn := (Reference.name?_eq_some_iff _ _).mpr hv
    have unbound : env.names.find? target = none := by
      simpa [contains, NameTable.contains] using hb
    simp only [if_neg hr, hn, if_neg he, unbound]
  | circular hr he hv hb =>
    have hn := (Reference.name?_eq_some_iff _ _).mpr hv
    obtain ⟨cell, hc⟩ := Option.isSome_iff_exists.mp hb
    simp only [if_neg hr, hn, if_neg he, hc, if_true]

theorem assign_literal (env : Environment) (name value : String)
    (hr : Text.trim name ≠ reservedName) (hv : Reference.name? (Text.trim value) = none) :
    env.assign name value = .ok (env.write (Text.trim name) (Text.trim value)) := by
  simp only [assign, if_neg hr, hv]

theorem assign_reference (env : Environment) (name value target : String)
    (hr : Text.trim name ≠ reservedName) (he : target ≠ "")
    (hv : Reference.name? (Text.trim value) = some target)
    (hb : env.contains target = true) (hs : target ≠ Text.trim name) :
    ∃ cell, env.names.find? target = some cell ∧ env.assign name value =
      .ok { env with names := env.names.insert (Text.trim name) cell } := by
  obtain ⟨cell, hc⟩ := Option.isSome_iff_exists.mp hb
  exact ⟨cell, hc, by simp only [assign, if_neg hr, hv, if_neg he, hc, if_neg hs]⟩

theorem assign_eq_error_iff (env : Environment) (name value : String) (e : MemoryError) :
    env.assign name value = .error e ↔
      AssignmentFault env.contains (Text.trim name) (Text.trim value) e := by
  constructor
  · intro h
    rcases assignable_or_fault env.contains (Text.trim name) (Text.trim value) with ha | ⟨f, hf⟩
    · cases ha with
      | literal hr hv =>
        rw [assign_literal env name value hr hv] at h
        cases h
      | reference target hr he hv hb hs =>
        obtain ⟨cell, -, ok⟩ := assign_reference env name value target hr he hv hb hs
        rw [ok] at h
        cases h
    · rw [assign_of_fault env name value f hf, Except.error.injEq] at h
      exact h ▸ hf
  · exact assign_of_fault env name value e

end Environment

namespace AliasStore

theorem assign_of_fault (store : AliasStore) (name value : String) (e : MemoryError)
    (h : AssignmentFault store.contains (Text.trim name) (Text.trim value) e) :
    store.assign name value = .error e := by
  unfold assign
  cases h with
  | reserved hr => simp only [hr, if_true]
  | empty hr hv =>
    have hn := (Reference.name?_eq_some_iff _ _).mpr hv
    simp only [if_neg hr, hn, if_true]
  | undefined target hr he hv hb =>
    have hn := (Reference.name?_eq_some_iff _ _).mpr hv
    simp only [if_neg hr, hn, if_neg he, hb, if_true]
  | circular hr he hv hb =>
    have hn := (Reference.name?_eq_some_iff _ _).mpr hv
    simp only [if_neg hr, hn, if_neg he, hb, Bool.true_eq_false, if_false, if_true]

theorem assign_literal (store : AliasStore) (name value : String)
    (hr : Text.trim name ≠ reservedName) (hv : Reference.name? (Text.trim value) = none) :
    store.assign name value = .ok (store.write (Text.trim name) (Text.trim value)) := by
  simp only [assign, if_neg hr, hv]

theorem assign_reference (store : AliasStore) (name value target : String)
    (hr : Text.trim name ≠ reservedName) (he : target ≠ "")
    (hv : Reference.name? (Text.trim value) = some target)
    (hb : store.contains target = true) (hs : target ≠ Text.trim name) :
    store.assign name value = .ok (store.move (Text.trim name) target) := by
  simp only [assign, if_neg hr, hv, if_neg he, hb, Bool.true_eq_false, if_false, if_neg hs]

end AliasStore

structure AliasStore.Holds (store : AliasStore) (env : Environment) : Prop where
  inRange : env.InRange
  find? : ∀ name, env.find? name = store.find? name
  areAliases : ∀ a b, env.areAliases a b = store.areAliases a b

namespace AliasStore.Holds

theorem empty : AliasStore.empty.Holds .empty where
  inRange := by
    intro name cell h
    cases h
  find? _ := rfl
  areAliases _ _ := rfl

variable {store : AliasStore} {env : Environment} (h : store.Holds env)

include h in
theorem contains (name : String) : env.contains name = store.contains name := by
  rw [env.contains_eq h.inRange, store.contains_eq, h.find?]

include h in
theorem get (name : String) : env.get name = store.get name := by
  cases hs : store.find? name with
  | none => simp only [Environment.get, AliasStore.get, h.find?, hs]
  | some value => simp only [Environment.get, AliasStore.get, h.find?, hs]

include h in
theorem write (name value : String) : (store.write name value).Holds (env.write name value) := by
  cases hb : store.contains name with
  | true =>
    obtain ⟨inRange, values, pairs⟩ := env.write_of_bound h.inRange name value
      ((contains h name).trans hb)
    have written : store.write name value = store.setValue name value := by
      simp [AliasStore.write, hb]
    rw [written]
    refine ⟨inRange, ?_, ?_⟩
    · intro other
      rw [values, find?_setValue, h.areAliases, h.find?]
    · intro a b
      rw [pairs, areAliases_setValue, h.areAliases]
  | false =>
    obtain ⟨inRange, values, pairs⟩ := env.write_of_unbound h.inRange name value
      ((contains h name).trans hb)
    have written : store.write name value = store.addClass name value hb := by
      simp [AliasStore.write, hb]
    rw [written]
    refine ⟨inRange, ?_, ?_⟩
    · intro other
      rw [values, find?_addClass, h.find?]
    · intro a b
      rw [pairs, areAliases_addClass, h.areAliases]

include h in
theorem move (name target : String) (cell : Nat) (hc : env.names.find? target = some cell)
    (hne : target ≠ name) :
    (store.move name target).Holds { env with names := env.names.insert name cell } := by
  obtain ⟨inRange, values, pairs⟩ := env.bind_to_target h.inRange name target cell hc
  refine ⟨inRange, ?_, ?_⟩
  · intro other
    rw [values, find?_move store name target hne, h.find?]
  · intro a b
    rw [pairs, areAliases_move store name target hne, h.areAliases]

end AliasStore.Holds

/-- Two calls fail with one error, or their results are related. -/
def AgreeUpTo (related : α → β → Prop) : Except ε α → Except ε β → Prop
  | .ok a, .ok b => related a b
  | .error e, .error f => e = f
  | _, _ => False

def keepOnError (state : σ) (result : Except ε σ) : σ := result.toOption.getD state

theorem AgreeUpTo.keepOnError (related : α → β → Prop) {a : α} {b : β} (h : related a b)
    {x : Except ε α} {y : Except ε β} (agree : AgreeUpTo related x y) :
    related (keepOnError a x) (keepOnError b y) := by
  cases x with
  | ok a' =>
    cases y with
    | ok b' => exact agree
    | error f => exact agree.elim
  | error e =>
    cases y with
    | ok b' => exact agree.elim
    | error f => exact h

theorem AgreeUpTo.map_left {related : α → β → Prop} (other : γ → β → Prop) {x : Except ε α}
    {y : Except ε β} (agree : AgreeUpTo related x y) (f : α → γ)
    (h : ∀ a b, related a b → other (f a) b) : AgreeUpTo other (x.map f) y := by
  cases x with
  | ok a =>
    cases y with
    | ok b => exact h a b agree
    | error e => exact agree.elim
  | error e =>
    cases y with
    | ok b => exact agree.elim
    | error f => exact agree

theorem AgreeUpTo.error_iff {related : α → β → Prop} {x : Except ε α} {y : Except ε β}
    (agree : AgreeUpTo related x y) (e : ε) : x = .error e ↔ y = .error e := by
  cases x with
  | ok a =>
    cases y with
    | ok b => simp
    | error f => exact agree.elim
  | error f =>
    cases y with
    | ok b => exact agree.elim
    | error g =>
      have same : f = g := agree
      rw [same, Except.error.injEq]
      exact Except.error.injEq g e ▸ Iff.rfl

theorem AliasStore.Holds.assign {store : AliasStore} {env : Environment} (h : store.Holds env)
    (name value : String) :
    AgreeUpTo (fun env store => AliasStore.Holds store env) (env.assign name value)
      (store.assign name value) := by
  have bound : env.contains = store.contains := funext h.contains
  rcases assignable_or_fault env.contains (Text.trim name) (Text.trim value) with ha | ⟨e, he⟩
  · cases ha with
    | literal hr hv =>
      rw [env.assign_literal name value hr hv, store.assign_literal name value hr hv]
      exact h.write _ _
    | reference target hr he hv hb hs =>
      obtain ⟨cell, hc, moved⟩ := env.assign_reference name value target hr he hv hb hs
      rw [moved, store.assign_reference name value target hr he hv (bound ▸ hb) hs]
      exact h.move _ target cell hc hs
  · rw [env.assign_of_fault name value e he, store.assign_of_fault name value e (bound ▸ he)]
    rfl

inductive VariableCall where
  | assign (name value : String)
  | clear

def Memory.call (memory : Memory) : VariableCall → Except MemoryError Memory
  | .assign name value => memory.assign name value
  | .clear => .ok memory.clearVariables

def Memory.afterCalls (memory : Memory) (calls : List VariableCall) : Memory :=
  calls.foldl (fun memory call => keepOnError memory (memory.call call)) memory

def AliasStore.call (store : AliasStore) : VariableCall → Except MemoryError AliasStore
  | .assign name value => store.assign name value
  | .clear => .ok .empty

def AliasStore.afterCalls (store : AliasStore) (calls : List VariableCall) : AliasStore :=
  calls.foldl (fun store call => keepOnError store (store.call call)) store

theorem AliasStore.Holds.call {store : AliasStore} {memory : Memory} (h : store.Holds memory.env)
    (call : VariableCall) :
    AgreeUpTo (fun memory store => AliasStore.Holds store memory.env) (memory.call call)
      (store.call call) := by
  cases call with
  | clear => exact empty
  | assign name value =>
    have agree := h.assign name value
    exact agree.map_left (fun (memory : Memory) store => AliasStore.Holds store memory.env)
      (fun env => { memory with env }) fun _ _ holds => holds

theorem AliasStore.Holds.afterCalls {store : AliasStore} {memory : Memory}
    (h : store.Holds memory.env) (calls : List VariableCall) :
    (store.afterCalls calls).Holds (memory.afterCalls calls).env := by
  induction calls generalizing store memory with
  | nil => exact h
  | cons first rest ih =>
    apply ih
    exact AgreeUpTo.keepOnError (fun (memory : Memory) store => AliasStore.Holds store memory.env) h
      (h.call first)

/-- What one assignment does to the value and the aliases of every name. -/
structure Memory.AssignmentLaws (memory : Memory) : Prop where
  fails_iff : ∀ name value e, memory.assign name value = .error e ↔
    AssignmentFault memory.env.contains (Text.trim name) (Text.trim value) e
  literal_of_bound : ∀ name value memory', memory.assign name value = .ok memory' →
    Reference.name? (Text.trim value) = none → memory.env.contains (Text.trim name) = true →
    (∀ other, memory'.env.get other = if memory.env.areAliases (Text.trim name) other
      then .ok (Text.trim value) else memory.env.get other) ∧
    ∀ a b, memory'.env.areAliases a b = memory.env.areAliases a b
  literal_of_unbound : ∀ name value memory', memory.assign name value = .ok memory' →
    Reference.name? (Text.trim value) = none → memory.env.contains (Text.trim name) = false →
    memory'.env.get (Text.trim name) = .ok (Text.trim value) ∧
    (∀ other, memory'.env.areAliases (Text.trim name) other = decide (other = Text.trim name)) ∧
    (∀ other, other ≠ Text.trim name → memory'.env.get other = memory.env.get other) ∧
    ∀ a b, a ≠ Text.trim name → b ≠ Text.trim name →
      memory'.env.areAliases a b = memory.env.areAliases a b
  reference : ∀ name value target memory', memory.assign name value = .ok memory' →
    Text.trim value = Reference.ofName target →
    memory'.env.areAliases (Text.trim name) target = true ∧
    memory'.env.get (Text.trim name) = memory.env.get target ∧
    (∀ other, other ≠ Text.trim name → memory'.env.get other = memory.env.get other) ∧
    ∀ a b, a ≠ Text.trim name → b ≠ Text.trim name →
      memory'.env.areAliases a b = memory.env.areAliases a b

namespace Memory

theorem assign_eq_error_iff (memory : Memory) (name value : String) (e : MemoryError) :
    memory.assign name value = .error e ↔ memory.env.assign name value = .error e := by
  unfold assign
  cases memory.env.assign name value <;> simp [Except.map]

theorem assign_eq_ok_iff (memory memory' : Memory) (name value : String) :
    memory.assign name value = .ok memory' ↔
      ∃ env, memory.env.assign name value = .ok env ∧ { memory with env } = memory' := by
  unfold assign
  cases memory.env.assign name value <;> simp [Except.map]

theorem written_of_assign (memory memory' : Memory) (name value : String)
    (h : memory.assign name value = .ok memory') (hv : Reference.name? (Text.trim value) = none) :
    memory'.env = memory.env.write (Text.trim name) (Text.trim value) := by
  obtain ⟨env, done, rfl⟩ := (assign_eq_ok_iff memory memory' name value).mp h
  by_cases hr : Text.trim name = reservedName
  · rw [memory.env.assign_of_fault name value _ (.reserved hr)] at done
    cases done
  · rw [memory.env.assign_literal name value hr hv, Except.ok.injEq] at done
    exact done.symm

theorem moved_of_assign (memory memory' : Memory) (name value target : String)
    (h : memory.assign name value = .ok memory')
    (hv : Text.trim value = Reference.ofName target) :
    ∃ cell, memory.env.names.find? target = some cell ∧ target ≠ Text.trim name ∧
      memory'.env = { memory.env with names := memory.env.names.insert (Text.trim name) cell } := by
  obtain ⟨env, done, rfl⟩ := (assign_eq_ok_iff memory memory' name value).mp h
  have hn := (Reference.name?_eq_some_iff _ target).mpr hv
  rcases assignable_or_fault memory.env.contains (Text.trim name) (Text.trim value) with
    ha | ⟨e, he⟩
  · cases ha with
    | literal hr hnone =>
      rw [hnone] at hn
      cases hn
    | reference other hr he ho hb hs =>
      rw [hn, Option.some.injEq] at ho
      subst ho
      obtain ⟨cell, hc, moved⟩ := memory.env.assign_reference name value target hr he hn hb hs
      rw [moved, Except.ok.injEq] at done
      exact ⟨cell, hc, hs, done.symm⟩
  · rw [memory.env.assign_of_fault name value e he] at done
    cases done

theorem assignmentLaws (memory : Memory) (hr : memory.env.InRange) : memory.AssignmentLaws where
  fails_iff name value e := by
    rw [assign_eq_error_iff, Environment.assign_eq_error_iff]
  literal_of_bound name value memory' h hv hb := by
    have written := written_of_assign memory memory' name value h hv
    obtain ⟨-, values, pairs⟩ :=
      memory.env.write_of_bound hr (Text.trim name) (Text.trim value) hb
    rw [written]
    refine ⟨?_, pairs⟩
    intro other
    by_cases shared : memory.env.areAliases (Text.trim name) other = true
    · simp only [Environment.get, values, if_pos shared]
    · simp only [Environment.get, values, if_neg shared]
  literal_of_unbound name value memory' h hv hb := by
    have written := written_of_assign memory memory' name value h hv
    obtain ⟨-, values, pairs⟩ :=
      memory.env.write_of_unbound hr (Text.trim name) (Text.trim value) hb
    rw [written]
    refine ⟨?_, ?_, ?_, ?_⟩
    · simp only [Environment.get, values, if_true]
    · intro other
      rw [pairs, if_pos rfl]
    · intro other ho
      simp only [Environment.get, values, if_neg ho]
    · intro a b ha _
      rw [pairs, if_neg ha]
  reference name value target memory' h hv := by
    obtain ⟨cell, hc, hne, moved⟩ := moved_of_assign memory memory' name value target h hv
    obtain ⟨-, values, pairs⟩ := memory.env.bind_to_target hr (Text.trim name) target cell hc
    rw [moved]
    refine ⟨?_, ?_, ?_, ?_⟩
    · rw [pairs, if_pos rfl, if_neg hne]
      exact (memory.env.areAliases_eq_true_iff target target).mpr ⟨cell, hc, hc⟩
    · have bound : (memory.env.find? target).isSome = true := by
        rw [← memory.env.contains_eq hr, Environment.contains, NameTable.contains, hc]
        rfl
      obtain ⟨text, ht⟩ := Option.isSome_iff_exists.mp bound
      simp only [Environment.get, values, if_true, ht]
    · intro other ho
      simp only [Environment.get, values, if_neg ho]
    · intro a b ha hb
      rw [pairs, if_neg ha, if_neg hb]

theorem areAliases_equivalence (memory : Memory) :
    Equivalence fun a b : { name // memory.env.contains name = true } =>
      memory.env.areAliases a b = true := by
  refine ⟨?_, ?_, ?_⟩
  · intro a
    obtain ⟨cell, hc⟩ := Option.isSome_iff_exists.mp a.2
    exact (memory.env.areAliases_eq_true_iff a a).mpr ⟨cell, hc, hc⟩
  · intro a b h
    obtain ⟨cell, ha, hb⟩ := (memory.env.areAliases_eq_true_iff a b).mp h
    exact (memory.env.areAliases_eq_true_iff b a).mpr ⟨cell, hb, ha⟩
  · intro a b c hab hbc
    obtain ⟨cell, ha, hb⟩ := (memory.env.areAliases_eq_true_iff a b).mp hab
    obtain ⟨cell', hb', hc⟩ := (memory.env.areAliases_eq_true_iff b c).mp hbc
    rw [hb, Option.some.injEq] at hb'
    exact (memory.env.areAliases_eq_true_iff a c).mpr ⟨cell, ha, hb' ▸ hc⟩

/-- After any calls from an empty memory, the variables are a partition of the bound
names with one value to each class: calls fail alike, answers are alike, and every
further assignment moves, adds or revalues as the laws say. -/
theorem variables_refine_aliasStore (calls : List VariableCall) :
    let memory := Memory.empty.afterCalls calls
    let store := AliasStore.empty.afterCalls calls
    (∀ name, memory.env.get name = store.get name) ∧
    (∀ name, memory.env.contains name = store.contains name) ∧
    (∀ a b, memory.env.areAliases a b = store.areAliases a b) ∧
    (∀ call e, memory.call call = .error e ↔ store.call call = .error e) ∧
    memory.AssignmentLaws ∧
    (Equivalence fun a b : { name // memory.env.contains name = true } =>
      memory.env.areAliases a b = true) ∧
    ∀ a b, memory.env.areAliases a b = true → memory.env.get a = memory.env.get b := by
  intro memory store
  have h : store.Holds memory.env := AliasStore.Holds.empty.afterCalls calls
  refine ⟨h.get, h.contains, h.areAliases, ?_, assignmentLaws memory h.inRange,
    areAliases_equivalence memory, ?_⟩
  · intro call e
    exact (h.call call).error_iff e
  · intro a b hab
    have bound : memory.env.contains b = true := by
      obtain ⟨cell, -, hb⟩ := (memory.env.areAliases_eq_true_iff a b).mp hab
      rw [Environment.contains, NameTable.contains, hb]
      rfl
    rw [memory.env.contains_eq h.inRange] at bound
    obtain ⟨value, hv⟩ := Option.isSome_iff_exists.mp bound
    have same := memory.env.find?_eq_of_areAliases a b hab
    rw [Environment.get, Environment.get, same, hv]

end Memory
end SimpleFiles
