import SimpleFiles.Proofs.Check.Acceptance

/-! What merging comes to. The parameters that count are resolved in order, the instruction's
first, and the first that does not resolve ends the merge; else the last one with a key is the one
that is kept. -/
namespace SimpleFiles

open Check

def Parameter.Resolves (env : Environment) (p : Parameter) : Prop :=
  ∃ value, env.resolve p.value = .ok value

/-- The value of the condition under a key, or that of the instruction if it has none. -/
def LastOf (instruction condition : List Parameter) (key raw : String) : Prop :=
  LastValue condition key raw ∨ ¬HasKey condition key ∧ LastValue instruction key raw

theorem Check.lastValue?_append (front back : List Parameter) (key : String) :
    lastValue? (front ++ back) key = (lastValue? back key).or (lastValue? front key) := by
  rw [lastValue?, List.reverse_append, List.find?_append, Option.map_or]
  rfl

theorem lastOf_iff (instruction condition : List Parameter) (key raw : String) :
    LastOf instruction condition key raw ↔
      lastValue? (instruction ++ condition) key = some raw := by
  rw [LastOf, hasKey_iff, ← lastValue?_eq_some_iff, ← lastValue?_eq_some_iff, lastValue?_append]
  cases lastValue? condition key <;> simp

namespace Parameters

variable (env : Environment)

theorem add_append (params : Parameters) (front back : List Parameter) :
    add env params (front ++ back) = (add env params front).bind fun added =>
      add env added back := by
  induction front generalizing params with
  | nil => rfl
  | cons p rest ih =>
    rw [List.cons_append, add, add]
    cases env.resolve p.value with
    | error e => rfl
    | ok value => exact ih _

theorem merge_eq_add (work : Work) (instruction : List Parameter)
    (condition : Option (List Parameter)) :
    merge work instruction condition env =
      add env .empty (instruction ++ effective work (condition.getD [])) := by
  rw [merge, add_append]
  cases add env .empty instruction <;> rfl

theorem add_of_resolves (params : Parameters) (list : List Parameter)
    (h : ∀ p ∈ list, p.Resolves env) : ∃ merged, add env params list = .ok merged := by
  induction list generalizing params with
  | nil => exact ⟨params, rfl⟩
  | cons p rest ih =>
    obtain ⟨value, hv⟩ := h p (.head _)
    rw [add, hv]
    exact ih _ fun q hq => h q (.tail _ hq)

theorem add_of_unresolved (params : Parameters) (front : List Parameter) (p : Parameter)
    (rest : List Parameter) (e : MemoryError) (h : ∀ q ∈ front, q.Resolves env)
    (he : env.resolve p.value = .error e) :
    add env params (front ++ p :: rest) = .error e := by
  obtain ⟨added, done⟩ := add_of_resolves env params front h
  rw [add_append, done]
  show add env added (p :: rest) = .error e
  rw [add, he]

theorem resolves_or_unresolved (list : List Parameter) :
    (∀ p ∈ list, p.Resolves env) ∨ ∃ front p rest e, list = front ++ p :: rest ∧
      (∀ q ∈ front, q.Resolves env) ∧ env.resolve p.value = .error e := by
  induction list with
  | nil => exact .inl fun p hp => absurd hp List.not_mem_nil
  | cons p others ih =>
    cases hr : env.resolve p.value with
    | error e => exact .inr ⟨[], p, others, e, rfl, fun q hq => absurd hq List.not_mem_nil, hr⟩
    | ok value =>
      rcases ih with all | ⟨front, q, rest, e, rfl, resolved, he⟩
      · exact .inl (List.forall_mem_cons.mpr ⟨⟨value, hr⟩, all⟩)
      · exact .inr ⟨p :: front, q, rest, e, rfl,
          List.forall_mem_cons.mpr ⟨⟨value, hr⟩, resolved⟩, he⟩

theorem add_eq_ok_iff (params : Parameters) (list : List Parameter) :
    (∃ merged, add env params list = .ok merged) ↔ ∀ p ∈ list, p.Resolves env := by
  refine ⟨?_, add_of_resolves env params list⟩
  rintro ⟨merged, done⟩
  rcases resolves_or_unresolved env list with all | ⟨front, p, rest, e, rfl, resolved, he⟩
  · exact all
  · rw [add_of_unresolved env params front p rest e resolved he] at done
    cases done

theorem add_eq_error_iff (params : Parameters) (list : List Parameter) (e : MemoryError) :
    add env params list = .error e ↔ ∃ front p rest, list = front ++ p :: rest ∧
      (∀ q ∈ front, q.Resolves env) ∧ env.resolve p.value = .error e := by
  constructor
  · intro fails
    rcases resolves_or_unresolved env list with all | ⟨front, p, rest, f, rfl, resolved, he⟩
    · obtain ⟨merged, done⟩ := add_of_resolves env params list all
      rw [done] at fails
      cases fails
    · rw [add_of_unresolved env params front p rest f resolved he, Except.error.injEq] at fails
      exact ⟨front, p, rest, rfl, resolved, fails ▸ he⟩
  · rintro ⟨front, p, rest, rfl, resolved, he⟩
    exact add_of_unresolved env params front p rest e resolved he

theorem find?_add_empty (merged : Parameters) (list : List Parameter)
    (h : add env .empty list = .ok merged) (key value : String) :
    merged.find? key = some value ↔
      ∃ raw, lastValue? list key = some raw ∧ env.resolve raw = .ok value := by
  have read := find?_of_add env .empty merged list h key
  cases last : lastValue? list key with
  | none =>
    rw [last] at read
    simp [read]
  | some raw =>
    rw [last] at read
    obtain ⟨resolved, hr, hf⟩ := read
    simp [hr, hf]

theorem contains_add_empty (merged : Parameters) (list : List Parameter)
    (h : add env .empty list = .ok merged) (key : String) :
    merged.contains key = true ↔ ∃ p ∈ list, p.lowerKey = key := by
  have read := find?_of_add env .empty merged list h key
  have listed : lastValue? list key = none ↔ ¬∃ p ∈ list, p.lowerKey = key := by
    simp [lastValue?_eq_none_iff]
  rw [NameTable.contains]
  cases last : lastValue? list key with
  | none =>
    rw [last] at read
    simpa [read] using listed.mp last
  | some raw =>
    rw [last] at read
    obtain ⟨resolved, -, hf⟩ := read
    have there : ∃ p ∈ list, p.lowerKey = key := by
      by_contra none
      rw [listed.mpr none] at last
      cases last
    simpa [hf] using there

/-- A merge succeeds exactly if every parameter that counts resolves, those that are overridden
later included, and else fails as the first of them does. What it gives has the keys of these
parameters in lower case, each with the value of the last parameter of the condition that has it, or
of the instruction where the condition has none. What the condition says under ignored keys plays
no part. -/
theorem merge_last_resolved (work : Work) (instruction : List Parameter)
    (condition : Option (List Parameter)) :
    let counted := (condition.getD []).filter fun p => p.lowerKey ∉ work.ignoredKeys
    let merged := merge work instruction condition env
    ((∃ params, merged = .ok params) ↔ ∀ p ∈ instruction ++ counted, p.Resolves env) ∧
    (∀ e, merged = .error e ↔ ∃ front p rest, instruction ++ counted = front ++ p :: rest ∧
      (∀ q ∈ front, q.Resolves env) ∧ env.resolve p.value = .error e) ∧
    (∀ params, merged = .ok params →
      (∀ key, params.contains key = true ↔ ∃ p ∈ instruction ++ counted, p.lowerKey = key) ∧
      ∀ key value, params.find? key = some value ↔
        ∃ raw, LastOf instruction counted key raw ∧ env.resolve raw = .ok value) ∧
    ∀ other : Option (List Parameter),
      (other.getD []).filter (fun p => p.lowerKey ∉ work.ignoredKeys) = counted →
        merge work instruction other env = merged := by
  intro counted merged
  have effective_eq (list : List Parameter) :
      effective work list = list.filter fun p => p.lowerKey ∉ work.ignoredKeys := by
    simp [effective, Work.ignores]
  have same : merged = add env .empty (instruction ++ counted) := by
    rw [show merged = _ from merge_eq_add env work instruction condition, effective_eq]
  rw [same]
  refine ⟨add_eq_ok_iff env _ _, add_eq_error_iff env _ _, ?_, ?_⟩
  · intro params done
    refine ⟨contains_add_empty env params _ done, fun key value => ?_⟩
    simp only [lastOf_iff]
    exact find?_add_empty env params _ done key value
  · intro other agree
    rw [merge_eq_add, effective_eq, agree]

end Parameters
end SimpleFiles
