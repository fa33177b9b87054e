import SimpleFiles.Proofs.Memory.Refinement
import SimpleFiles.Proofs.Text.Blank

/-! What every memory is like that assignments and clearings lead to: names and values have no
blanks at their ends, and no value is a reference. So a reference is resolved in one step. -/
namespace SimpleFiles

namespace Environment

/-- The reserved name is not bound, and names and cells hold only what trimming leaves. -/
structure IsTidy (env : Environment) : Prop where
  reserved : env.contains reservedName = false
  names : ∀ name, env.contains name = true → Text.IsTrimmed name
  cells : ∀ value ∈ env.cells, Text.IsTrimmed value ∧ Reference.name? value = none

theorem IsTidy.empty : Environment.empty.IsTidy where
  reserved := rfl
  names := by
    intro name bound
    cases bound
  cells := by
    intro value stored
    cases stored

theorem assign_cases {env env' : Environment} {name value : String}
    (h : env.assign name value = .ok env') :
    Text.trim name ≠ reservedName ∧
      ((Reference.name? (Text.trim value) = none ∧
          env' = env.write (Text.trim name) (Text.trim value)) ∨
        ∃ cell, env' = { env with names := env.names.insert (Text.trim name) cell }) := by
  rcases assignable_or_fault env.contains (Text.trim name) (Text.trim value) with able | ⟨e, he⟩
  · cases able with
    | literal hr hv =>
      rw [env.assign_literal name value hr hv, Except.ok.injEq] at h
      exact ⟨hr, .inl ⟨hv, h.symm⟩⟩
    | reference target hr he hv hb hs =>
      obtain ⟨cell, -, bound⟩ := env.assign_reference name value target hr he hv hb hs
      rw [bound, Except.ok.injEq] at h
      exact ⟨hr, .inr ⟨cell, h.symm⟩⟩
  · rw [env.assign_of_fault name value e he] at h
    cases h

theorem mem_cells_write {env : Environment} {name value text : String}
    (h : text ∈ (env.write name value).cells) : text = value ∨ text ∈ env.cells := by
  unfold write at h
  split at h
  · exact (List.mem_or_eq_of_mem_set h).symm
  · rcases List.mem_append.mp h with old | new
    · exact .inr old
    · exact .inl (List.mem_singleton.mp new)

theorem contains_of_contains_write {env : Environment} {name value other : String}
    (h : (env.write name value).contains other = true) :
    other = name ∨ env.contains other = true := by
  unfold write at h
  split at h
  · exact .inr h
  · exact (NameTable.contains_insert _ _ _ _).mp h

namespace IsTidy

variable {env : Environment} (tidy : env.IsTidy)

include tidy in
theorem of_names {env' : Environment} {name : String} (trimmed : Text.IsTrimmed name)
    (unreserved : name ≠ reservedName)
    (names : ∀ other, env'.contains other = true → other = name ∨ env.contains other = true)
    (cells : ∀ value ∈ env'.cells, Text.IsTrimmed value ∧ Reference.name? value = none) :
    env'.IsTidy where
  reserved := by
    by_contra bound
    rcases names _ (Bool.eq_true_of_not_eq_false bound) with same | old
    · exact unreserved same.symm
    · rw [tidy.reserved] at old
      cases old
  names := by
    intro other bound
    rcases names other bound with rfl | old
    · exact trimmed
    · exact tidy.names other old
  cells := cells

include tidy in
theorem assign {env' : Environment} {name value : String}
    (h : env.assign name value = .ok env') : env'.IsTidy := by
  obtain ⟨unreserved, ⟨literal, rfl⟩ | ⟨cell, rfl⟩⟩ := assign_cases h
  · refine tidy.of_names (Text.isTrimmed_trim name) unreserved
      (fun other => contains_of_contains_write) ?_
    intro text stored
    rcases mem_cells_write stored with rfl | old
    · exact ⟨Text.isTrimmed_trim value, literal⟩
    · exact tidy.cells text old
  · exact tidy.of_names (Text.isTrimmed_trim name) unreserved
      (fun other => (NameTable.contains_insert _ _ _ _).mp) tidy.cells

include tidy in
theorem find? {name value : String} (h : env.find? name = some value) :
    Text.IsTrimmed value ∧ Reference.name? value = none := by
  obtain ⟨cell, -, stored⟩ := Option.bind_eq_some_iff.mp h
  exact tidy.cells value (List.mem_of_getElem? stored)

end IsTidy

/-! Resolving. -/

theorem get_eq_ok_iff (env : Environment) (name value : String) :
    env.get name = .ok value ↔ env.find? name = some value := by
  unfold get
  cases env.find? name <;> simp

theorem resolve_literal (env : Environment) (raw : String) (h : Reference.name? raw = none) :
    env.resolve raw = .ok raw := by
  rw [resolve, h]

theorem resolve_ofName (env : Environment) (name : String) (h : name ≠ "") :
    env.resolve (Reference.ofName name) = env.get name := by
  rw [resolve, (Reference.name?_eq_some_iff _ name).mpr rfl]
  exact if_neg h

theorem resolve_cases {env : Environment} {raw value : String} (h : env.resolve raw = .ok value) :
    (Reference.name? raw = none ∧ value = raw) ∨ ∃ name, env.find? name = some value := by
  unfold resolve at h
  split at h
  · rename_i literal
    exact .inl ⟨literal, (Except.ok.inj h).symm⟩
  · rename_i name _
    split at h
    · cases h
    · exact .inr ⟨name, (get_eq_ok_iff env name value).mp h⟩

theorem get_of_unbound (env : Environment) (name : String) (h : env.contains name = false) :
    env.get name = .error (.unknownVariable name) := by
  have unbound : env.names.find? name = none := by
    simpa [contains, NameTable.contains] using h
  rw [get, find?, unbound]
  rfl

theorem IsTidy.resolve_resolved {env : Environment} (tidy : env.IsTidy) {raw value : String}
    (h : env.resolve raw = .ok value) : env.resolve value = .ok value := by
  rcases resolve_cases h with ⟨literal, rfl⟩ | ⟨name, stored⟩
  · exact h
  · exact env.resolve_literal value (tidy.find? stored).2

theorem IsTidy.unbound {env : Environment} (tidy : env.IsTidy) {name : String}
    (h : ¬Text.IsTrimmed name) : env.contains name = false :=
  Bool.eq_false_iff.mpr fun bound => h (tidy.names name bound)

theorem exists_assign_error (env : Environment) (name value target : String) (he : target ≠ "")
    (h : env.contains target = false) (hv : Text.trim value = Reference.ofName target) :
    ∃ e, env.assign name value = .error e := by
  by_cases reserved : Text.trim name = reservedName
  · exact ⟨_, env.assign_of_fault name value _ (.reserved reserved)⟩
  · exact ⟨_, env.assign_of_fault name value _ (.undefined target reserved he hv h)⟩

end Environment

namespace Memory

theorem isTidy_of_call {memory memory' : Memory} (tidy : memory.env.IsTidy) (call : VariableCall)
    (h : memory.call call = .ok memory') : memory'.env.IsTidy := by
  cases call with
  | assign name value =>
    obtain ⟨env, done, rfl⟩ := (assign_eq_ok_iff memory memory' name value).mp h
    exact tidy.assign done
  | clear =>
    cases h
    exact Environment.IsTidy.empty

theorem isTidy_afterCalls {memory : Memory} (tidy : memory.env.IsTidy)
    (calls : List VariableCall) : (memory.afterCalls calls).env.IsTidy := by
  induction calls generalizing memory with
  | nil => exact tidy
  | cons first rest ih =>
    apply ih
    show (keepOnError memory (memory.call first)).env.IsTidy
    cases done : memory.call first with
    | ok memory' => exact isTidy_of_call tidy first done
    | error e => exact tidy

/-- After any calls from an empty memory, whether they succeed or fail, the reserved name is not
bound, what is bound and what is stored have no blanks at their ends, and nothing that is stored is
a reference. So what was resolved resolves to itself, the reserved name never resolves, and a
reference with a blank at either end of its name neither resolves nor can be assigned. -/
theorem variables_are_tidy (calls : List VariableCall) :
    let memory := Memory.empty.afterCalls calls
    memory.env.contains reservedName = false ∧
    (∀ name, memory.env.contains name = true → Text.IsTrimmed name) ∧
    (∀ name value, memory.env.get name = .ok value →
      Text.IsTrimmed value ∧ Reference.isReference value = false) ∧
    (∀ raw value, memory.env.resolve raw = .ok value → memory.env.resolve value = .ok value) ∧
    memory.env.resolve (Reference.ofName reservedName) = .error (.unknownVariable reservedName) ∧
    ∀ inner, ¬Text.IsTrimmed inner →
      memory.env.resolve (Reference.ofName inner) = .error (.unknownVariable inner) ∧
      ∀ name value, Text.trim value = Reference.ofName inner →
        ∃ e, memory.assign name value = .error e := by
  intro memory
  have tidy : memory.env.IsTidy := isTidy_afterCalls Environment.IsTidy.empty calls
  refine ⟨tidy.reserved, tidy.names, ?_, fun raw value => tidy.resolve_resolved, ?_, ?_⟩
  · intro name value read
    obtain ⟨trimmed, literal⟩ := tidy.find? ((memory.env.get_eq_ok_iff name value).mp read)
    exact ⟨trimmed, by rw [Reference.isReference, literal]; rfl⟩
  · rw [memory.env.resolve_ofName reservedName (by decide)]
    exact memory.env.get_of_unbound reservedName tidy.reserved
  · intro inner blank
    have unbound := tidy.unbound blank
    have filled : inner ≠ "" := by
      rintro rfl
      exact blank ⟨by simp, by simp⟩
    constructor
    · rw [memory.env.resolve_ofName inner filled]
      exact memory.env.get_of_unbound inner unbound
    · intro name value spelled
      obtain ⟨e, fails⟩ := memory.env.exists_assign_error name value inner filled unbound
        spelled
      exact ⟨e, (assign_eq_error_iff memory name value e).mpr fails⟩

end Memory
end SimpleFiles
