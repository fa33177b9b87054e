import SimpleFiles.Proofs.Create.Adding
import SimpleFiles.Proofs.Execution.GivenPaths
import SimpleFiles.Proofs.FileSystem.Confinement
import SimpleFiles.Proofs.NameTemplate

/-! Creating stays below the working directory when the path and the names do. -/
namespace SimpleFiles.Create

open FileTree FileSystem

variable {dir : Path} {base : Location} {fs fs' : FileSystem} {kind : Kind}
  {template : Option Path}

theorem isInner_of_names (params : Parameters) (memory : Memory) (declared : Instruction)
    (condition : Option Condition) (list : List String)
    (merged : declared.merged .create condition memory = .ok params)
    (inner : ∀ text ∈ declared.givenPaths .create fs dir memory condition,
      (Path.ofText text).IsInner)
    (h : names fs dir declared.name params = .ok list) :
    ∀ name ∈ list, (Path.ofText name).IsInner := by
  unfold names at h
  split at h
  · rename_i file hf
    unfold namesOfFile at h
    split at h
    · cases h
    · rename_i text read
      split at h
      · cases h
      · cases h
        exact fun line listed =>
          inner line (Instruction.mem_givenPaths_of_line merged hf read listed)
  · split at h
    · cases h
    · rename_i template given
      simp only [bind, Except.bind] at h
      split at h
      · cases h
      · exact NameTemplate.isInner_of_names template _ list
          (inner template (Instruction.mem_givenPaths merged (by decide) given))
          (eq_of_mapError_ok _ _ _ h)

variable (kind template) in
theorem confined_createOne (anchored : Anchored dir base fs) (instruction : String)
    {target : Path} {names : List String} (extended : dir.Extends names target) :
    Confined base fs (createOne fs instruction kind template target).1 := by
  have stays := anchored.staysBelow extended
  rcases createOne_files kind template fs instruction target with
    same | ⟨-, source, copied⟩ | made | made
  · rw [same]
    exact .refl anchored.proper
  · exact confined_copyFile anchored.proper stays source copied
  · exact confined_createFile anchored.proper stays made
  · rw [made]
    exact confined_createAll fs target anchored.proper stays

theorem names_ne_nil_of_makes (anchored : Anchored dir base fs) (anchored' : Anchored dir base fs')
    {target : Path} {names : List String} (extended : dir.Extends names target)
    (made : Makes kind template fs target fs') : names ≠ [] := by
  rintro rfl
  obtain ⟨l, n, -, free, located, -⟩ := made.made
  obtain ⟨-, walked⟩ := (Place.locate_eq_ok_iff _ anchored'.proper.noLinks true target l).mp located
  have here : l = base := by
    rw [eq_wayEnd_of_walkTo? _ [] l _ walked, anchored'.wayEnd_of_extends extended,
      List.append_nil]
  have there := (isDirectory_iff _ _).mp anchored.isDirectory
  rw [← here, free] at there
  cases there

variable (kind template) in
theorem confined_createEach (anchored : Anchored dir base fs) (instruction : String)
    (output : Path) (filled : output.text ≠ "") (there : fs.isDirectory output = true)
    (targets : List Path) (named : ∀ target ∈ targets, IsTarget kind output target)
    (extended : ∀ target ∈ targets, ∃ names, dir.Extends names target) :
    Confined base fs (createEach instruction kind template fs targets).1 ∧
      ∀ entries, (createEach instruction kind template fs targets).2 = .ok entries →
        ∀ entry ∈ entries, entry.IsBelow dir := by
  induction targets generalizing fs with
  | nil =>
    refine ⟨.refl anchored.proper, ?_⟩
    rintro entries ⟨⟩ entry listed
    cases listed
  | cons target rest ih =>
    obtain ⟨⟨names, first⟩, others⟩ := List.forall_mem_cons.mp extended
    obtain ⟨name, otherNames⟩ := List.forall_mem_cons.mp named
    have one := confined_createOne kind template anchored instruction first
    rw [createEach]
    split
    · rename_i failed
      rw [failed] at one
      exact ⟨one, fun entries ok => by cases ok⟩
    rename_i fs₁ isNew made
    rw [made] at one
    have anchored₁ := anchored.confined one
    have made? := createOne_cases instruction output target isNew anchored.proper.closed filled
      there name made
    have there₁ : fs₁.isDirectory output = true := by
      rcases made? with ⟨-, rfl, -⟩ | ⟨-, -, makes, -⟩
      · exact there
      · exact isDirectory_of_grows (makes.alone.grows fun _ => False) output there
    obtain ⟨later, listed⟩ := ih anchored₁ there₁ otherNames others
    split
    · rename_i failed
      rw [failed] at later
      exact ⟨one.trans later, fun entries ok => by cases ok⟩
    · rename_i created all
      rw [all] at later listed
      refine ⟨one.trans later, ?_⟩
      rintro entries ⟨⟩
      rcases made? with ⟨rfl, -⟩ | ⟨rfl, -, makes, -⟩
      · exact listed created rfl
      · exact List.forall_mem_cons.mpr
          ⟨⟨names, names_ne_nil_of_makes anchored anchored₁ first makes, first⟩, listed created rfl⟩

theorem confined_perform (anchored : Anchored dir base fs) (instruction : String) (p : Plan)
    {names : List String} (placed : dir.Extends names p.output)
    (inner : ∀ name ∈ p.names, (Path.ofText name).IsInner)
    (noDot : p.kind = .folder → ∀ name ∈ p.names, '.' ∉ name.toList) :
    Confined base fs (perform fs instruction p).1 ∧
      ∀ result, (perform fs instruction p).2 = .ok result → result.LiesUnder dir := by
  have made := confined_createAll fs p.output anchored.proper (anchored.staysBelow placed)
  have extended : ∀ target ∈ p.names.map fun name => p.output.join (.ofText name),
      ∃ names, dir.Extends names target := by
    intro target listed
    obtain ⟨name, hn, rfl⟩ := List.mem_map.mp listed
    exact ⟨_, placed.join_ofText name (inner name hn)⟩
  have named : ∀ target ∈ p.names.map fun name => p.output.join (.ofText name),
      IsTarget p.kind p.output target := by
    intro target listed
    obtain ⟨name, hn, rfl⟩ := List.mem_map.mp listed
    exact ⟨name, rfl, fun folder => noDot folder name hn⟩
  have filled := p.output.text_ne_empty_of_isAbsolute placed.absolute
  unfold perform
  split
  · rename_i failed
    rw [failed] at made
    exact ⟨made, fun result ok => by cases ok⟩
  · rename_i fs₁ output
    rw [output] at made
    have there := isDirectory_of_createAll (fun empty => filled (by rw [empty]; rfl)) output
    obtain ⟨later, listed⟩ := confined_createEach p.kind p.template
      (anchored.confined made) instruction p.output filled there _ named extended
    split
    · rename_i failed
      rw [failed] at later
      exact ⟨made.trans later, fun result ok => by cases ok⟩
    · rename_i fs' created all
      rw [all] at later listed
      refine ⟨made.trans later, ?_⟩
      rintro result ⟨⟩
      exact ⟨⟨names, placed⟩, listed created rfl⟩

theorem run_confined (anchored : Anchored dir base fs) (kind : Kind) (memory : Memory)
    (declared : Instruction) (condition : Option Condition)
    (inner : ∀ text ∈ declared.givenPaths .create fs dir memory condition,
      (Path.ofText text).IsInner) :
    Confined base fs (run fs dir memory kind declared condition).1 ∧
      ∀ result, (run fs dir memory kind declared condition).2 = .ok result →
        result.LiesUnder dir := by
  rw [run]
  cases planned : plan fs dir memory kind declared condition with
  | error e => exact ⟨.refl anchored.proper, fun result ok => by cases ok⟩
  | ok p =>
    obtain ⟨rfl, noDot, params, merged, named, output⟩ :=
      plan_cases dir memory declared condition p planned
    have innerNames := isInner_of_names params memory declared condition p.names merged inner named
    have placed : ∃ names, dir.Extends names p.output := by
      have self := anchored.rooted.self
      rcases output with same | ⟨raw, given, joined⟩
      · rw [same]
        exact ⟨[], self⟩
      · rw [joined]
        exact ⟨_, self.join_ofText raw
          (inner raw (Instruction.mem_givenPaths merged (by decide) given))⟩
    obtain ⟨names, placed⟩ := placed
    exact confined_perform anchored declared.name p placed innerNames noDot

end SimpleFiles.Create
