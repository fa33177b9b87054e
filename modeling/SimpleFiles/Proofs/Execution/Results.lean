import SimpleFiles.Proofs.Execution.Changes

/-! What a stored result says of the tree. Its entries lie below its base, and those that were
created are there; so are those that were grouped, unless one of them is moved off the way of
another. -/
namespace SimpleFiles

namespace Create

open FileTree

section
variable {kind : Kind} {template : Option Path} {fs fs' : FileSystem} {output target : Path}

theorem isBelow_of_makes (rooted : output.IsRooted) (there : fs.isDirectory output = true)
    (name : String) (inner : (Path.ofText name).IsInner)
    (made : Makes kind template fs (output.join (.ofText name)) fs') :
    (output.join (.ofText name)).IsBelow output := by
  have extended := rooted.self.join_ofText name inner
  refine ⟨_, ?_, extended⟩
  rw [List.nil_append]
  intro nowhere
  obtain ⟨⟨l, n, -, free, located, -⟩, alone⟩ := made
  obtain ⟨asked, leads⟩ := (Place.locate_iff_leads _ l).mp located
  obtain ⟨m, outputLocated, directory⟩ := fs.exists_locate_of_isDirectory output there
  have grown := alone.grows fun _ => False
  have reached := ((Place.locate_iff_leads _ m).mp outputLocated).2.grows grown
  have idle : ∀ s ∈ (Path.ofText name).segments, Path.isIdle s = true := by
    simpa [Path.steps] using nowhere
  have before : Place.Leads fs'.tree true Place.maxLinks [] output.folder m := by
    rcases output.segments_eq_folder with same | trailing
    · rwa [← same]
    · rw [trailing] at reached
      exact reached.of_append_idle (by decide)
  rcases output.join_cases (.ofText name) with ⟨absolute, -⟩ | ⟨-, joined⟩
  · rw [inner.relative] at absolute
    cases absolute
  · rw [joined] at leads
    obtain rfl := leads.unique (before.append_idle (grown.isDirectory_of m directory) idle)
    rw [(isDirectory_iff _ _).mp directory] at free
    cases free

theorem Fills.entries_there {targets entries : List Path}
    (h : Fills kind template fs targets entries fs') (rooted : output.IsRooted)
    (there : fs.isDirectory output = true)
    (named : ∀ target ∈ targets, ∃ name, target = output.join (.ofText name) ∧
      (Path.ofText name).IsInner) :
    ∀ entry ∈ entries, entry.IsBelow output ∧ ∃ l, Place.locate fs'.tree true entry = .ok l := by
  induction h with
  | done fs => exact nofun
  | passedOver taken later ih => exact ih there (List.forall_mem_cons.mp named).2
  | created free made later ih =>
    obtain ⟨⟨name, rfl, inner⟩, others⟩ := List.forall_mem_cons.mp named
    have there₁ := FileSystem.isDirectory_of_grows (made.alone.grows fun _ => False) output there
    refine List.forall_mem_cons.mpr ⟨⟨isBelow_of_makes rooted there name inner made, ?_⟩,
      ih there₁ others⟩
    obtain ⟨l, n, -, -, located, -⟩ := made.made
    exact ⟨l, Place.locate_of_grows ((later.gains output).grows fun _ => False) _ l located⟩

end

/-- Where an instruction creates, the names of what it creates are relative and never go up. -/
def NamesInner (fs : FileSystem) (dir : Path) (memory : Memory) (declared : Instruction)
    (condition : Option Condition) : Prop :=
  ∀ kind p, declared.action = Kind.action kind →
    plan fs dir memory kind declared condition = .ok p →
      ∀ name ∈ p.names, (Path.ofText name).IsInner

theorem run_describes (kind : Kind) (fs fs' : FileSystem) (dir : Path) (memory : Memory)
    (declared : Instruction) (condition : Option Condition) (closed : fs.tree.IsClosed)
    (rooted : dir.IsRooted) (action : declared.action = kind.action)
    (inner : NamesInner fs dir memory declared condition)
    (result : ResultSet) (h : run fs dir memory kind declared condition = (fs', .ok result)) :
    result.IsFiled ∧ ∀ entry ∈ result.entries, ∃ l, Place.locate fs'.tree true entry = .ok l := by
  unfold run at h
  split at h
  · cases h
  rename_i p planned
  obtain ⟨ofKind, noDot, -⟩ := plan_cases dir memory declared condition p planned
  have rootedOutput := isRooted_output rooted p planned
  have filled := p.output.text_ne_empty_of_isAbsolute rootedOutput.absolute
  obtain ⟨base, fs₁, there, -, fills⟩ :=
    perform_fills declared.name p result closed filled (ofKind ▸ noDot) h
  have described := fills.entries_there rootedOutput there (by
    intro target member
    obtain ⟨name, hn, rfl⟩ := List.mem_map.mp member
    exact ⟨name, rfl, inner kind p action planned name hn⟩)
  exact ⟨⟨base ▸ rootedOutput, fun entry listed => base ▸ (described entry listed).1⟩,
    fun entry listed => (described entry listed).2⟩

end Create

namespace Group

open FileTree

variable {fs fs' : FileSystem} {dir : Path} {memory : Memory}

/-- While a plan is carried out, a path that is recorded names an entry no more, because one of the
entries is moved that it is reached by, or that it leads to. -/
def Plan.Loses (p : Plan) (fs : FileSystem) (entry : Path) : Prop :=
  p.mode = .move ∧ IsLost p.base p.output (fs.createAll p.output).1 p.entries entry

theorem run_describes (sound : fs.tree.IsSound) (rooted : dir.IsRooted) (filed : memory.IsFiled)
    (declared : Instruction) (condition : Option Condition) (result : ResultSet)
    (h : run fs dir memory declared condition = (fs', .ok result)) :
    result.IsFiled ∧ ∃ p, plan fs dir memory declared condition = .ok p ∧
      ∀ entry ∈ result.entries, entry.text.utf8ByteSize < Place.maxPathSize →
        (∃ l, Place.locate fs'.tree false entry = .ok l) ∨ p.Loses fs entry := by
  unfold run at h
  split at h
  · cases h
  rename_i p planned
  obtain ⟨base, output, below⟩ := places_of_plan sound rooted filed declared condition p planned
  have paths := transferable_of_plan sound rooted filed declared condition p planned
  have sound₁ := (FileSystem.changes_createAll fs output.plain).isSound sound
  unfold perform at h
  split at h
  · cases h
  rename_i fs₁ made
  have first : (fs.createAll p.output).1 = fs₁ := congrArg Prod.fst made
  rw [first] at sound₁
  cases h
  have ends : ∀ target ∈ (transferEach p.mode p.base p.output fs₁ p.entries).2,
      target.IsBelow p.output ∧ target.EndsInName := by
    intro target listed
    obtain ⟨entry, member, rfl⟩ := exists_of_recorded p.entries fs₁ target listed
    obtain ⟨names, filled, extended⟩ := below entry member
    obtain ⟨further, spelled⟩ := extends_destination base output filled extended
    exact ⟨⟨names, filled, further⟩, spelled⟩
  refine ⟨⟨output, fun entry listed => (ends entry listed).1⟩, p, planned, ?_⟩
  intro target listed short
  rcases holds_of_recorded p.entries sound₁ paths target listed short with there | ⟨moves, lost⟩
  · exact .inl (there.exists_locate (ends target listed).2)
  · exact .inr ⟨moves, first ▸ lost⟩

end Group

namespace Execution

variable {fs fs' : FileSystem} {dir : Path} {memory memory' : Memory} {declared : Instruction}
  {condition : Option Condition}

/-- What a result says of the tree: it lies below its base, and each entry that is not too long a
path is there, unless the group that it is the result of loses it. -/
structure Describes (fs : FileSystem) (dir : Path) (memory : Memory) (declared : Instruction)
    (condition : Option Condition) (fs' : FileSystem) (result : ResultSet) : Prop where
  filed : result.IsFiled
  there : ∀ entry ∈ result.entries, entry.text.utf8ByteSize < Place.maxPathSize →
    (∃ l, Place.locate fs'.tree false entry = .ok l) ∨
      declared.action = .group ∧
        ∃ p, Group.plan fs dir memory declared condition = .ok p ∧ p.Loses fs entry

theorem act_describes (sound : fs.tree.IsSound) (rooted : dir.IsRooted) (filed : memory.IsFiled)
    (inner : Create.NamesInner fs dir memory declared condition) (result : ResultSet)
    (h : act fs dir memory declared condition = (fs', .ok (some result))) :
    Describes fs dir memory declared condition fs' result := by
  have created : ∀ kind : Create.Kind, declared.action = kind.action →
      (Create.run fs dir memory kind declared condition).map id (·.map some) =
        (fs', .ok (some result)) → Describes fs dir memory declared condition fs' result := by
    intro kind action h
    obtain ⟨stored, ran, same⟩ := exists_of_map_ok _ _ _ _ h
    cases same
    obtain ⟨filedResult, there⟩ := Create.run_describes kind fs fs' dir memory declared condition
      sound.closed rooted action inner result ran
    refine ⟨filedResult, fun entry listed _ => .inl ?_⟩
    obtain ⟨l, located⟩ := there entry listed
    exact Place.exists_locate_unfollowed located
  unfold act at h
  split at h
  · rename_i action
    exact created .file action h
  · rename_i action
    exact created .folder action h
  · rename_i groups
    obtain ⟨stored, ran, same⟩ := exists_of_map_ok _ _ _ _ h
    cases same
    obtain ⟨filedResult, p, planned, there⟩ :=
      Group.run_describes sound rooted filed declared condition result ran
    exact ⟨filedResult, fun entry listed short =>
      (there entry listed short).imp_right fun loses => ⟨groups, p, planned, loses⟩⟩
  · obtain ⟨-, -, none⟩ := exists_of_map_ok _ _ _ _ h
    cases none
  · cases h

end Execution

namespace State

variable (s s' : State) (dir : Path) (name : String) (condition : Option String)

theorem run_of_execute (declared : Instruction)
    (found : s.declared.instructions.find? name = some declared)
    (completed : s.execute dir name condition = (s', .completed)) :
    ∃ memory, Execution.run s.files dir s.memory declared
        (condition.bind s.declared.conditions.find?) = (s'.files, .ok memory) ∧
      s'.memory = memory := by
  unfold execute at completed
  simp only [found] at completed
  split at completed
  · cases completed
  · split at completed
    · cases completed
    · split at completed
      · rename_i files memory ran
        cases completed
        exact ⟨memory, ran, rfl⟩
      · cases completed

theorem execute_describes (declared : Instruction) (sound : s.IsSound) (rooted : dir.IsRooted)
    (found : s.declared.instructions.find? name = some declared)
    (stores : declared.action.storesResult = true)
    (inner : Create.NamesInner s.files dir s.memory declared
      (condition.bind s.declared.conditions.find?))
    (completed : s.execute dir name condition = (s', .completed)) :
    ∃ result, s'.memory = s.memory.store declared.name result ∧
      Execution.Describes s.files dir s.memory declared
        (condition.bind s.declared.conditions.find?) s'.files result := by
  obtain ⟨memory, ran, same⟩ := s.run_of_execute s' dir name condition declared found completed
  obtain ⟨result, acted, rfl⟩ := exists_of_map_ok _ _ _ _ ran
  have isSome := Execution.storesResult_of_act _ _ _ _ _ _ _ acted
  rw [stores] at isSome
  obtain ⟨result, rfl⟩ := Option.isSome_iff_exists.mp isSome
  exact ⟨result, same, Execution.act_describes sound.files rooted sound.filed inner result acted⟩

/-- The names of what a statement creates in a state are relative and never go up. -/
def NamesInner : Statement → Prop
  | .execute name condition _ =>
    ∀ declared, s.declared.instructions.find? name = some declared →
      Create.NamesInner s.files dir s.memory declared (condition.bind s.declared.conditions.find?)
  | _ => True

theorem execute_isSound (sound : s.IsSound) (rooted : dir.IsRooted) (span : Span)
    (inner : s.NamesInner dir (.execute name condition span)) :
    (s.execute dir name condition).1.IsSound := by
  refine ⟨(execute_changes sound rooted name condition).isSound sound.files, ?_⟩
  rcases s.execute_cases dir name condition with ⟨outcome, same, -⟩ |
    ⟨declared, found, files, known, ⟨memory, ran, after⟩ | ⟨e, -, after⟩⟩
  · rw [same]
    exact sound.filed
  · rcases Execution.memory_of_run _ _ _ _ _ _ _ ran with ⟨stores, -⟩ | ⟨-, same⟩
    · obtain ⟨result, stored, described⟩ := s.execute_describes _ dir name condition declared sound
        rooted known stores (inner declared known) after
      rw [after, stored]
      exact sound.filed.store declared.name result described.filed
    · rw [after, same]
      exact sound.filed
  · rw [after]
    exact sound.filed

theorem step_isSound (sound : s.IsSound) (rooted : dir.IsRooted) (stmt : Statement)
    (outcome : Option Outcome) (inner : s.NamesInner dir stmt)
    (h : s.step dir stmt = .ok (s', outcome)) : s'.IsSound := by
  cases stmt with
  | instruction declared =>
    cases h
    exact ⟨sound.files, sound.filed⟩
  | condition declared =>
    cases h
    exact ⟨sound.files, sound.filed⟩
  | assign key value span =>
    obtain ⟨env, rfl⟩ := s.exists_of_step_assign dir s' key value span outcome h
    exact ⟨sound.files, sound.filed⟩
  | execute name condition span =>
    cases h
    exact s.execute_isSound dir name condition sound rooted span inner

end State
end SimpleFiles
