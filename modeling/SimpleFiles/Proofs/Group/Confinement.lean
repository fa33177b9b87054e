import SimpleFiles.Proofs.Execution.GivenPaths
import SimpleFiles.Proofs.FileSystem.Confinement
import SimpleFiles.Proofs.Group.Accounting

/-! Grouping stays below the working directory when the target and the path do, and when all that
earlier results list lies there. -/
namespace SimpleFiles.Group

open FileTree FileSystem

variable {dir root output : Path} {base : Location} {fs fs' : FileSystem}
  {between above : List String} {isDone : Bool}

theorem isBelow_destination (absolute : dir.isAbsolute = true) (entry : Path)
    (below : entry.IsBelow dir) (source : dir.Extends between root)
    (placed : dir.Extends above output) : (destination entry root output).IsBelow dir := by
  obtain ⟨names, filled, extended⟩ := below
  have short := extended.join_shortText filled absolute placed
  unfold destination
  split
  · rename_i relative found
    split
    · exact short
    · rename_i visible
      obtain ⟨rest, -, ⟨-, empty⟩ | ⟨further, spelled, plain, inner, steps⟩⟩ :=
        extended.relativeTo? source absolute found
      · rw [empty] at visible
        exact absurd rfl visible
      · refine ⟨above ++ Path.steps relative.segments, ?_, placed.join relative spelled plain inner⟩
        rw [steps]
        exact List.append_ne_nil_of_right_ne_nil _ further
  · exact short

section
variable (anchored : Anchored dir base fs) {entry target : Path} (leaves : entry.IsBelow dir)
  (arrives : target.IsBelow dir)

include anchored arrives in
theorem confined_makeParent : Confined base fs (makeParent fs target).1 := by
  obtain ⟨names, -, extended⟩ := arrives
  rcases makeParent_cases fs target with same | ⟨parent, found, made⟩
  · rw [same]
    exact .refl anchored.proper
  · rw [made]
    exact confined_createAll fs parent anchored.proper
      ((anchored.staysBelow extended).parent found)

include anchored leaves arrives in
theorem confined_moveEntry (h : moveEntry fs entry target = (fs', isDone)) :
    Confined base fs fs' := by
  obtain ⟨names, filled, source⟩ := leaves
  obtain ⟨names', filled', extended⟩ := arrives
  have onto := anchored.staysBelow extended
  rcases moveEntry_cases h with
    ⟨-, moved⟩ | ⟨fs₁, copied, ⟨-, removed⟩ | ⟨-, rfl⟩⟩ | ⟨-, rfl⟩
  · exact confined_rename anchored.proper entry target source.plain extended.plain
      (anchored.liesBelow source filled) (anchored.liesBelow extended filled') moved
  · have first := confined_copyFile anchored.proper onto entry copied
    have anchored₁ := anchored.confined first
    exact first.trans
      (confined_removeFile anchored₁.proper (anchored₁.staysBelow source) removed)
  · exact confined_copyFile anchored.proper onto entry copied
  · exact .refl anchored.proper

include anchored arrives in
theorem confined_copyEntry (h : copyEntry fs entry target = (fs', isDone)) :
    Confined base fs fs' := by
  obtain ⟨names, -, extended⟩ := arrives
  have stays := anchored.staysBelow extended
  rcases copyEntry_cases h with ⟨_, created, -⟩ | ⟨-, copied⟩ | ⟨-, rfl⟩
  · have made := confined_createAll fs target anchored.proper stays
    rwa [created] at made
  · exact confined_copyFile anchored.proper stays entry copied
  · exact .refl anchored.proper

include anchored leaves arrives in
theorem confined_transfer (mode : GroupMode) :
    Confined base fs (transfer mode fs entry target).1 := by
  have made := confined_makeParent anchored arrives
  have anchored₁ := anchored.confined made
  cases done : transfer mode fs entry target with
  | mk fs' isDone =>
    rcases transfer_cases done with
      ⟨-, rfl | rfl⟩ | ⟨-, -, -, rfl⟩ | ⟨-, ⟨-, moved⟩ | ⟨-, copied⟩⟩
    · exact .refl anchored.proper
    · exact made
    · exact .refl anchored.proper
    · exact made.trans (confined_moveEntry anchored₁ leaves arrives moved)
    · exact made.trans (confined_copyEntry anchored₁ arrives copied)

end

theorem confined_transferEach (mode : GroupMode) (anchored : Anchored dir base fs)
    (source : dir.Extends between root) (placed : dir.Extends above output) (entries : List Path)
    (below : ∀ entry ∈ entries, entry.IsBelow dir) :
    Confined base fs (transferEach mode root output fs entries).1 ∧
      ∀ target ∈ (transferEach mode root output fs entries).2, target.IsBelow dir := by
  induction entries generalizing fs with
  | nil => exact ⟨.refl anchored.proper, fun target listed => by cases listed⟩
  | cons entry rest ih =>
    obtain ⟨first, others⟩ := List.forall_mem_cons.mp below
    have arrives := isBelow_destination anchored.absolute entry first source placed
    have done := confined_transfer anchored first arrives mode
    obtain ⟨later, listed⟩ := ih (anchored.confined done) others
    rw [transferEach_cons]
    refine ⟨done.trans later, ?_⟩
    intro target member
    simp only at member
    split at member
    · rcases List.mem_cons.mp member with rfl | member
      · exact arrives
      · exact listed target member
    · exact listed target member

theorem liesUnder_candidates (anchored : Anchored dir base fs) (memory : Memory)
    (stored : memory.LiesUnder dir) (instruction : String) (params : Parameters)
    (inner : ∀ text, params.find? "group_target" = some text → (Path.ofText text).IsInner)
    (result : ResultSet) (h : candidates fs dir memory instruction params = .ok result) :
    result.LiesUnder dir := by
  unfold candidates at h
  split at h
  · rename_i own
    cases h
    exact stored _ _ own
  split at h
  · cases h
  rename_i target given
  split at h
  · rename_i named
    cases h
    exact stored _ _ named
  · simp only at h
    split at h
    · cases h
      have extended := anchored.rooted.self.join_ofText target (inner target given)
      exact ⟨⟨_, extended⟩, isBelow_of_walk anchored.proper.isEntryName_of_mem extended⟩
    · cases h

theorem plan_cases (memory : Memory) (declared : Instruction) (condition : Option Condition)
    (p : Plan) (h : plan fs dir memory declared condition = .ok p) :
    ∃ params source path, declared.merged .group condition memory = .ok params ∧
      candidates fs dir memory declared.name params = .ok source ∧
      params.find? "path" = some path ∧ p.output = dir.join (.ofText path) ∧
      p.base = source.base ∧ p.entries ⊆ source.entries := by
  obtain ⟨params, f, source, path, mode, merged, -, chosen, given, -, rfl⟩ :=
    (plan_eq_ok_iff fs dir memory declared condition p).mp h
  exact ⟨params, source, path, merged, (chosen_iff ..).mpr chosen, given, rfl, rfl,
    fun _ member => List.mem_of_mem_filter member⟩

theorem run_confined (anchored : Anchored dir base fs) (memory : Memory)
    (stored : memory.LiesUnder dir) (declared : Instruction) (condition : Option Condition)
    (inner : ∀ text ∈ declared.givenPaths .group fs dir memory condition,
      (Path.ofText text).IsInner) :
    Confined base fs (run fs dir memory declared condition).1 ∧
      ∀ result, (run fs dir memory declared condition).2 = .ok result → result.LiesUnder dir := by
  rw [run]
  cases planned : plan fs dir memory declared condition with
  | error e => exact ⟨.refl anchored.proper, fun result ok => by cases ok⟩
  | ok p =>
    obtain ⟨params, source, path, merged, chosen, given, output, root, kept⟩ :=
      plan_cases memory declared condition p planned
    have innerOf : ∀ key ∈ Parameters.placeKeys, ∀ text, params.find? key = some text →
        (Path.ofText text).IsInner :=
      fun key place text given => inner text (Instruction.mem_givenPaths merged place given)
    obtain ⟨⟨between, extended⟩, below⟩ := liesUnder_candidates anchored memory stored declared.name
      params (innerOf _ (by decide)) source chosen
    have placed := anchored.rooted.self.join_ofText path (innerOf _ (by decide) path given)
    rw [← output] at placed
    rw [← root] at extended
    have made := confined_createAll fs p.output anchored.proper (anchored.staysBelow placed)
    simp only [perform]
    split
    · rename_i failed
      rw [failed] at made
      exact ⟨made, fun result ok => by cases ok⟩
    · rename_i fs₁ done
      rw [done] at made
      obtain ⟨later, listed⟩ := confined_transferEach p.mode (anchored.confined made) extended
        placed p.entries fun entry member => below entry (kept member)
      refine ⟨made.trans later, ?_⟩
      rintro result ⟨⟩
      exact ⟨⟨_, placed⟩, listed⟩

end SimpleFiles.Group
