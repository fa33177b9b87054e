import SimpleFiles.Proofs.Create.Adding
import SimpleFiles.Proofs.Execution.Effects
import SimpleFiles.Proofs.FileSystem.Displacing

/-! Creating twice. The names come out the same, whatever was made for them is in their way, and
so the second time nothing is created. -/
namespace SimpleFiles.Create

open FileTree FileSystem

section
variable {kind : Kind} {template : Option Path} {fs fs' : FileSystem}

theorem createOne_of_grows {instruction : String} {target : Path}
    (grown : fs.tree.Grows (fun _ => False) fs'.tree)
    (h : createOne fs instruction kind template target = (fs, .ok false)) :
    createOne fs' instruction kind template target = (fs', .ok false) := by
  unfold createOne at h ⊢
  split at h
  · split at h
    · rename_i there
      rw [if_pos (pathExists_of_grows grown target there)]
    · split at h <;> cases h
  · split at h
    · cases h
    · rename_i taken
      rw [createFile_taken_of_grows grown taken]
    · cases h
  · split at h
    · rename_i there
      rw [if_pos (pathExists_of_grows grown target there)]
    · split at h <;> cases h

theorem createOne_again {instruction : String} {target : Path} {isNew : Bool}
    (filled : target ≠ .empty)
    (h : createOne fs instruction kind template target = (fs', .ok isNew)) :
    createOne fs' instruction kind template target = (fs', .ok false) := by
  unfold createOne at h ⊢
  split at h
  · split at h
    · rename_i there
      cases h
      rw [if_pos there]
    · split at h
      · rename_i copied
        cases h
        obtain ⟨l, located⟩ := exists_locate_of_copyFile copied
        rw [if_pos (fs'.pathExists_of_locate target l located)]
      · cases h
  · split at h
    · rename_i made
      cases h
      rw [createFile_again made]
    · rename_i taken
      cases h
      rw [taken]
    · cases h
  · split at h
    · rename_i there
      cases h
      rw [if_pos there]
    · split at h
      · rename_i made
        cases h
        obtain ⟨l, located, -⟩ :=
          fs'.exists_locate_of_isDirectory target (isDirectory_of_createAll filled made)
        rw [if_pos (fs'.pathExists_of_locate target l located)]
      · cases h

theorem createEach_again {instruction : String} (targets : List Path) {entries : List Path}
    (closed : fs.tree.IsClosed) (filled : ∀ target ∈ targets, target ≠ .empty)
    (h : createEach instruction kind template fs targets = (fs', .ok entries)) :
    createEach instruction kind template fs' targets = (fs', .ok []) := by
  induction targets generalizing fs entries with
  | nil => rfl
  | cons target rest ih =>
    obtain ⟨first, others⟩ := List.forall_mem_cons.mp filled
    rw [createEach] at h
    split at h
    · cases h
    rename_i fs₁ isNew one
    obtain ⟨-, closed₁⟩ := createOne_keeps kind template instruction target closed
    rw [one] at closed₁
    split at h
    · cases h
    rename_i created later
    cases h
    -- what the others make is no reason not to pass over the first
    have grown := createEach_grows kind template instruction rest closed₁
    rw [later] at grown
    rw [createEach, createOne_of_grows grown (createOne_again first one)]
    simp only [ih closed₁ others later]
    rfl

theorem perform_again {instruction : String} {p : Plan} {result : ResultSet}
    (closed : fs.tree.IsClosed) (filled : p.output.text ≠ "")
    (h : perform fs instruction p = (fs', .ok result)) :
    result.base = p.output ∧ perform fs' instruction p = (fs', .ok ⟨p.output, []⟩) := by
  have closed₁ := isClosed_createAll p.output closed
  have notEmpty : p.output ≠ .empty := by
    intro empty
    rw [empty] at filled
    exact filled rfl
  have targets : ∀ target ∈ p.names.map fun name => p.output.join (.ofText name),
      target ≠ .empty := by
    intro target member empty
    obtain ⟨name, -, rfl⟩ := List.mem_map.mp member
    refine Path.text_join_ne_empty p.output (.ofText name) filled
      (Path.segments_ofText_ne_nil name) ?_
    rw [empty]
    rfl
  unfold perform at h
  split at h
  · cases h
  rename_i fs₁ made
  rw [made] at closed₁
  have there := isDirectory_of_createAll notEmpty made
  split at h
  · cases h
  rename_i entries created
  cases h
  have grown := createEach_grows p.kind p.template instruction
    (p.names.map fun name => p.output.join (.ofText name)) closed₁
  rw [created] at grown
  refine ⟨rfl, ?_⟩
  rw [perform, createAll_of_isDirectory fs' p.output (isDirectory_of_grows grown p.output there)]
  simp only [createEach_again _ closed₁ targets created]

theorem names_of_grows {dir : Path} {instruction : String} {params : Parameters}
    {list : List String} (grown : fs.tree.Grows (fun _ => False) fs'.tree)
    (h : names fs dir instruction params = .ok list) :
    names fs' dir instruction params = .ok list := by
  unfold names at h ⊢
  split at h
  · rename_i raw found
    unfold namesOfFile at h ⊢
    split at h
    · cases h
    · rename_i text read
      rwa [readText_of_grows grown _ text read]
  · exact h

theorem plan_of_grows {dir : Path} {memory memory' : Memory} {declared : Instruction}
    {condition : Option Condition} {p : Plan} (grown : fs.tree.Grows (fun _ => False) fs'.tree)
    (sameEnv : memory'.env = memory.env)
    (h : plan fs dir memory kind declared condition = .ok p) :
    plan fs' dir memory' kind declared condition = .ok p := by
  unfold plan at h ⊢
  rw [sameEnv]
  simp only [bind, Except.bind] at h ⊢
  split at h
  · cases h
  split at h
  · cases h
  rename_i names named
  rw [names_of_grows grown named]
  exact h

theorem run_again {dir : Path} {memory memory' : Memory} {declared : Instruction}
    {condition : Option Condition} {result : ResultSet} (closed : fs.tree.IsClosed)
    (placed : dir.text ≠ "") (sameEnv : memory'.env = memory.env)
    (h : run fs dir memory kind declared condition = (fs', .ok result)) :
    run fs' dir memory' kind declared condition = (fs', .ok ⟨result.base, []⟩) := by
  unfold run at h
  split at h
  · cases h
  · rename_i p planned
    have grown := perform_grows declared.name p closed
    rw [h] at grown
    obtain ⟨base, again⟩ := perform_again closed (text_output_ne_empty placed planned) h
    rw [run, plan_of_grows grown sameEnv planned, base]
    exact again

end
end SimpleFiles.Create

namespace SimpleFiles.Execution

open Create

section
variable (kind : Kind) (fs : FileSystem) (dir : Path) (memory : Memory) (declared : Instruction)
  (condition : Option Condition)

/-- Creating again creates nothing: the same instruction under the same condition completes, the
file system stays as it is, and no entries are stored with the same base path. -/
theorem run_create_again (closed : fs.tree.IsClosed) (placed : dir.text ≠ "")
    (action : declared.action = kind.action) (fs' : FileSystem) (memory' : Memory)
    (h : run fs dir memory declared condition = (fs', .ok memory')) :
    ∃ base entries, memory' = memory.store declared.name ⟨base, entries⟩ ∧
      run fs' dir memory' declared condition =
        (fs', .ok (memory'.store declared.name ⟨base, []⟩)) := by
  have acts := fun fs memory => act_create kind fs dir memory declared condition action
  obtain ⟨result, created, rfl⟩ := (run_storing_iff _ _ _ _ _ _ _ (acts fs memory) _).mp h
  refine ⟨result.base, result.entries, rfl, ?_⟩
  rw [run_storing_iff _ _ _ _ _ _ _ (acts fs' _)]
  exact ⟨_, run_again closed placed rfl created, rfl⟩

end

theorem run_create_again_linked : ∃ fs' memory',
    linked.tree.IsClosed ∧ (Path.ofText "/").text ≠ "" ∧ copies.action = Kind.file.action ∧
      memory' = Memory.empty.store "copies"
        ⟨⟨["", "docs"]⟩, [⟨["", "docs", "hook"]⟩, ⟨["", "docs", "new"]⟩]⟩ ∧
      run linked (.ofText "/") .empty copies none = (fs', .ok memory') ∧
      run fs' (.ofText "/") memory' copies none =
        (fs', .ok (memory'.store "copies" ⟨⟨["", "docs"]⟩, []⟩)) := by
  have closed : linked.tree.IsClosed := by decide +kernel
  have placed : (Path.ofText "/").text ≠ "" := by decide
  have completed : (run linked (.ofText "/") .empty copies none).2 =
      .ok (Memory.empty.store "copies"
        ⟨⟨["", "docs"]⟩, [⟨["", "docs", "hook"]⟩, ⟨["", "docs", "new"]⟩]⟩) := by
    decide +kernel
  generalize first : run linked (.ofText "/") .empty copies none = ran at completed
  obtain ⟨fs', outcome⟩ := ran
  obtain rfl : outcome = .ok _ := completed
  obtain ⟨base, entries, stored, again⟩ := run_create_again .file linked (.ofText "/") .empty
    copies none closed placed rfl fs' _ first
  have same : base = ⟨["", "docs"]⟩ := by
    have found := congrArg (fun memory => memory.results.find? "copies") stored
    simp only [Memory.store, show copies.name = "copies" from rfl, NameTable.find?_insert,
      if_true, Option.some.injEq, ResultSet.mk.injEq] at found
    exact found.1.symm
  subst same
  exact ⟨fs', _, closed, placed, rfl, rfl, rfl, again⟩

end SimpleFiles.Execution
