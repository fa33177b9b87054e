import SimpleFiles.Proofs.Execution.Merging
import SimpleFiles.Proofs.Execution.Refusals
import SimpleFiles.Proofs.Group.Copying

/-! What an execution depends on. Of the variables it reads those that its parameters mention, when
these are merged; a name that comes from a value is looked up among the results. -/
namespace SimpleFiles

/-- The parameters that are resolved for an execution: those of the instruction, and those of the
condition under keys that the action does not ignore. -/
def Instruction.counted (declared : Instruction) (condition : Option Condition) : List Parameter :=
  declared.params ++ ((condition.map (·.params)).getD []).filter fun p =>
    (Work.ofAction? declared.action).all fun work => !work.ignores p.lowerKey

def Instruction.Mentions (declared : Instruction) (condition : Option Condition) (name : String) :
    Prop :=
  name ≠ "" ∧ ∃ p ∈ declared.counted condition, p.value = Reference.ofName name

/-- The memories give the same answer for each mentioned name, and hold the same results. -/
structure Memory.AlikeFor (mentioned : String → Prop) (m m' : Memory) : Prop where
  values : ∀ name, mentioned name → m.env.get name = m'.env.get name
  results : ∀ name, m.results.find? name = m'.results.find? name

theorem Environment.resolve_congr {env env' : Environment} {raw : String}
    (same : ∀ name, name ≠ "" → raw = Reference.ofName name → env.get name = env'.get name) :
    env.resolve raw = env'.resolve raw := by
  unfold resolve
  cases refers : Reference.name? raw with
  | none => rfl
  | some name =>
    by_cases blank : name = ""
    · simp only [if_pos blank]
    · simp only [if_neg blank]
      exact same name blank ((Reference.name?_eq_some_iff raw name).mp refers)

theorem Parameters.add_congr {env env' : Environment} (params : Parameters) (list : List Parameter)
    (same : ∀ p ∈ list, env.resolve p.value = env'.resolve p.value) :
    add env params list = add env' params list := by
  induction list generalizing params with
  | nil => rfl
  | cons p rest ih =>
    obtain ⟨here, later⟩ := List.forall_mem_cons.mp same
    rw [add, add, here]
    cases env'.resolve p.value with
    | error e => rfl
    | ok value => exact ih _ later

section
variable {fs : FileSystem} {dir : Path} {m m' : Memory} {declared : Instruction}
  {condition : Option Condition}

theorem Instruction.merged_congr {work : Work} (acts : Work.ofAction? declared.action = some work)
    (alike : m.AlikeFor (declared.Mentions condition) m') :
    declared.merged work condition m = declared.merged work condition m' := by
  have counted : declared.counted condition =
      declared.params ++ Parameters.effective work ((condition.map (·.params)).getD []) := by
    rw [Instruction.counted, acts]
    rfl
  rw [merged, merged, Parameters.merge_eq_add, Parameters.merge_eq_add, ← counted]
  refine Parameters.add_congr _ _ fun p hp => Environment.resolve_congr fun name named refers => ?_
  exact alike.values name ⟨named, p, hp, refers⟩

theorem Create.run_congr (kind : Kind)
    (same : declared.merged .create condition m = declared.merged .create condition m') :
    run fs dir m kind declared condition = run fs dir m' kind declared condition := by
  have planned : plan fs dir m kind declared condition =
      plan fs dir m' kind declared condition := by
    unfold plan
    rw [← Instruction.merged, ← Instruction.merged, same]
  unfold run
  rw [planned]

theorem Group.candidates_congr (results : ∀ name, m.results.find? name = m'.results.find? name)
    (name : String) (params : Parameters) :
    candidates fs dir m name params = candidates fs dir m' name params := by
  unfold candidates
  simp only [results]

theorem Group.run_congr (results : ∀ name, m.results.find? name = m'.results.find? name)
    (same : declared.merged .group condition m = declared.merged .group condition m') :
    run fs dir m declared condition = run fs dir m' declared condition := by
  have planned : plan fs dir m declared condition = plan fs dir m' declared condition := by
    unfold plan
    rw [← Instruction.merged, ← Instruction.merged, same]
    simp only [candidates_congr results]
  unfold run
  rw [planned]

theorem Rename.target_congr (results : ∀ name, m.results.find? name = m'.results.find? name)
    (raw : String) : target dir m raw = target dir m' raw := by
  unfold target
  rw [results]

theorem Rename.run_congr (results : ∀ name, m.results.find? name = m'.results.find? name)
    (same : declared.merged .rename condition m = declared.merged .rename condition m') :
    run fs dir m declared condition = run fs dir m' declared condition := by
  have planned : plan fs dir m declared condition = plan fs dir m' declared condition := by
    unfold plan
    rw [← Instruction.merged, ← Instruction.merged, same]
    simp only [target_congr results]
  unfold run
  rw [planned]

namespace Execution

theorem act_congr (alike : m.AlikeFor (declared.Mentions condition) m') :
    act fs dir m declared condition = act fs dir m' declared condition := by
  have merged : ∀ work, Work.ofAction? declared.action = some work →
      declared.merged work condition m = declared.merged work condition m' :=
    fun work acts => Instruction.merged_congr acts alike
  unfold act
  cases action : declared.action with
  | createFile =>
    simp only [Create.run_congr .file (merged .create (by rw [action]; rfl))]
  | createFolder =>
    simp only [Create.run_congr .folder (merged .create (by rw [action]; rfl))]
  | group => simp only [Group.run_congr alike.results (merged .group (by rw [action]; rfl))]
  | rename => simp only [Rename.run_congr alike.results (merged .rename (by rw [action]; rfl))]
  | unsupported word => rfl

/-- The memory after an execution; a failure leaves it as it was. -/
def memoryAfter (m : Memory) : Except ExecutionError Memory → Memory
  | .ok after => after
  | .error _ => m

theorem store_alike {mentioned : String → Prop} (alike : m.AlikeFor mentioned m') (name : String)
    (result : Option ResultSet) :
    (store m name result).AlikeFor mentioned (store m' name result) := by
  cases result with
  | none => exact alike
  | some result =>
    refine ⟨alike.values, fun other => ?_⟩
    simp only [store, Memory.store, NameTable.find?_insert, alike.results]

/-- An execution depends on variables only through the values it mentions. From memories that agree
on these and hold the same results it gives the same files and ends alike, with the same error if it
fails; both hold the same results after it, and still agree wherever they did. -/
theorem run_of_alike (alike : m.AlikeFor (declared.Mentions condition) m') :
    let first := run fs dir m declared condition
    let second := run fs dir m' declared condition
    first.1 = second.1 ∧
    first.2.map (fun _ => ()) = second.2.map (fun _ => ()) ∧
    (∀ name, (memoryAfter m first.2).results.find? name =
      (memoryAfter m' second.2).results.find? name) ∧
    ∀ mentioned, m.AlikeFor mentioned m' →
      (memoryAfter m first.2).AlikeFor mentioned (memoryAfter m' second.2) := by
  obtain ⟨fs', outcome, acted⟩ : ∃ fs' outcome, act fs dir m declared condition = (fs', outcome) :=
    ⟨_, _, rfl⟩
  have ran : run fs dir m declared condition = (fs', outcome.map (store m declared.name)) := by
    rw [run, acted]
    rfl
  have ran' : run fs dir m' declared condition = (fs', outcome.map (store m' declared.name)) := by
    rw [run, ← act_congr alike, acted]
    rfl
  rw [ran, ran']
  cases outcome with
  | error e => exact ⟨rfl, rfl, alike.results, fun _ other => other⟩
  | ok result =>
    exact ⟨rfl, rfl, (store_alike alike declared.name result).results,
      fun _ other => store_alike other declared.name result⟩

def picking : Instruction := Group.gather (Reference.ofName "PICKED") "docs/box" "copy" []

def limited : Condition :=
  ⟨"limited", [⟨"contains", "note", .zero⟩, ⟨"name", Reference.ofName "OTHER", .zero⟩], .zero⟩

def apart : Memory where
  env := ⟨["chosen", "extra"], ⟨[("PICKED", 0), ("OTHER", 1)]⟩⟩
  results := ⟨[("chosen", ⟨⟨["", "docs"]⟩, [⟨["", "docs", "note"]⟩]⟩)]⟩

def joint : Memory where
  env := ⟨["secret", "chosen"], ⟨[("HIDDEN", 0), ("ALIAS", 1), ("PICKED", 1)]⟩⟩
  results := apart.results

theorem run_of_alike_picking :
    apart.AlikeFor (picking.Mentions (some limited)) joint ∧
    apart.env.get "OTHER" ≠ joint.env.get "OTHER" ∧
    let first := run Group.shelf (.ofText "/") apart picking (some limited)
    let second := run Group.shelf (.ofText "/") joint picking (some limited)
    first.1 = second.1 ∧
    first.2.map (fun _ => ()) = second.2.map (fun _ => ()) ∧
    (∀ name, (memoryAfter apart first.2).results.find? name =
      (memoryAfter joint second.2).results.find? name) ∧
    (∀ mentioned, apart.AlikeFor mentioned joint →
      (memoryAfter apart first.2).AlikeFor mentioned (memoryAfter joint second.2)) ∧
    (memoryAfter joint second.2).results.find? "gather" =
      some ⟨⟨["", "docs", "box"]⟩, [⟨["", "docs", "box", "note"]⟩]⟩ := by
  have alike : apart.AlikeFor (picking.Mentions (some limited)) joint := by
    have values : ∀ p ∈ picking.counted (some limited), ∀ name ∈ Reference.name? p.value,
        apart.env.get name = joint.env.get name := by
      decide +kernel
    refine ⟨?_, fun _ => rfl⟩
    rintro name ⟨-, p, hp, refers⟩
    exact values p hp name ((Reference.name?_eq_some_iff p.value name).mpr refers)
  obtain ⟨files, outcome, results, kept⟩ := run_of_alike alike
  exact ⟨alike, by decide +kernel, files, outcome, results, kept, by decide +kernel⟩

end Execution
end
end SimpleFiles
