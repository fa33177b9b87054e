import SimpleFiles.Check
import SimpleFiles.Execution

/-! What parameters come to when they are merged: under each key the last value of
the list, resolved; a condition adds keys and never takes one away. -/
namespace SimpleFiles

namespace Check

theorem lastValue?_cons (p : Parameter) (rest : List Parameter) (key : String) :
    lastValue? (p :: rest) key =
      (lastValue? rest key).or (if p.lowerKey = key then some p.value else none) := by
  unfold lastValue?
  rw [List.reverse_cons, List.find?_append]
  cases (rest.reverse.find? (·.lowerKey = key)) with
  | some q => simp
  | none =>
    by_cases h : p.lowerKey = key
    · simp [h]
    · simp [h]

theorem lastValue?_eq_none_iff (params : List Parameter) (key : String) :
    lastValue? params key = none ↔ ∀ p ∈ params, p.lowerKey ≠ key := by
  simp [lastValue?]

end Check

namespace Parameters

open Check

theorem find?_of_add (env : Environment) (params merged : Parameters) (list : List Parameter)
    (h : add env params list = .ok merged) (key : String) :
    match lastValue? list key with
    | none => merged.find? key = params.find? key
    | some raw => ∃ value, env.resolve raw = .ok value ∧ merged.find? key = some value := by
  induction list generalizing params with
  | nil =>
    cases h
    rfl
  | cons p rest ih =>
    rw [add] at h
    cases hr : env.resolve p.value with
    | error e =>
      rw [hr] at h
      cases h
    | ok value =>
      rw [hr] at h
      have later := ih (params.insert p.lowerKey value) h
      rw [lastValue?_cons]
      cases hl : lastValue? rest key with
      | some raw => simpa [hl] using later
      | none =>
        simp only [hl, NameTable.find?_insert] at later
        by_cases hk : p.lowerKey = key
        · rw [if_pos hk.symm] at later
          simpa [hk] using ⟨value, hr, later⟩
        · rw [if_neg (Ne.symm hk)] at later
          simpa [hk] using later

theorem isSome_find?_of_merge (work : Work) (instruction : List Parameter)
    (condition : Option (List Parameter)) (env : Environment) (merged : Parameters)
    (h : merge work instruction condition env = .ok merged) (key : String)
    (hk : (lastValue? instruction key).isSome = true) : (merged.find? key).isSome = true := by
  unfold merge at h
  cases ha : add env .empty instruction with
  | error e =>
    rw [ha] at h
    cases h
  | ok params =>
    rw [ha] at h
    obtain ⟨raw, hraw⟩ := Option.isSome_iff_exists.mp hk
    have first := find?_of_add env .empty params instruction ha key
    have second := find?_of_add env params merged _ h key
    rw [hraw] at first
    obtain ⟨value, -, hv⟩ := first
    cases hc : lastValue? (effective work (condition.getD [])) key with
    | none =>
      rw [hc] at second
      rw [second, hv]
      rfl
    | some later =>
      rw [hc] at second
      obtain ⟨other, -, ho⟩ := second
      rw [ho]
      rfl

theorem find?_of_merge (work : Work) (instruction : List Parameter)
    (condition : Option (List Parameter)) (env : Environment) (merged : Parameters)
    (h : merge work instruction condition env = .ok merged) (key : String)
    (hc : ∀ p ∈ condition.getD [], p.lowerKey ≠ key) :
    match lastValue? instruction key with
    | none => merged.find? key = none
    | some raw => ∃ value, env.resolve raw = .ok value ∧ merged.find? key = some value := by
  unfold merge at h
  cases ha : add env .empty instruction with
  | error e =>
    rw [ha] at h
    cases h
  | ok params =>
    rw [ha] at h
    have first := find?_of_add env .empty params instruction ha key
    have second := find?_of_add env params merged _ h key
    have absent : lastValue? (effective work (condition.getD [])) key = none := by
      rw [lastValue?_eq_none_iff]
      intro p hp
      exact hc p (List.mem_filter.mp hp).1
    rw [absent] at second
    rw [second]
    exact first

end Parameters
end SimpleFiles
