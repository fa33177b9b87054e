import SimpleFiles.Proofs.Filter
import SimpleFiles.Proofs.Rename.Confinement

/-! What is still to be renamed is still in the list, rename by rename: an entry below the one that
is renamed went before it, since the deepest go first. So where the list ends, nothing is left whose
name could change. -/
namespace SimpleFiles.Rename

open FileTree FileSystem

structure Search where
  root : Path
  mode : CaseMode
  filter : Filter
  recursive : Bool

namespace Search

def location (s : Search) : Location := wayEnd [] s.root.segments

structure Spans (s : Search) (names : Location) : Prop where
  filled : names ≠ []
  named : ∀ name ∈ names, IsEntryName name
  level : s.recursive = false → names.length = 1

/-- An entry that is to be renamed: it is looked at, its name and its kind are what the filter asks
for, and its name has another case. -/
structure Wants (s : Search) (t : FileTree) (names : Location) : Prop extends s.Spans names where
  found : ∃ n, t.get? (s.location ++ names) = some n ∧
    s.filter.kind.all (·.admits n.isDirectory) = true
  admitted : s.filter.admitsName (lastName names) = true
  changes : Changes s.mode names

variable {s : Search} {fs fs' : FileSystem} {names : Location}

namespace Spans

theorem exists_last (h : s.Spans names) : ∃ front name, names = front ++ [name] ∧
    IsEntryName name ∧ s.root.below names = ⟨s.root.folder ++ front ++ [name]⟩ := by
  obtain rfl | ⟨front, name, rfl⟩ := names.eq_nil_or_concat
  · exact absurd rfl h.filled
  · rw [List.concat_eq_append] at h ⊢
    refine ⟨front, name, rfl, h.named name (by simp), ?_⟩
    rw [s.root.below_eq _ h.filled h.named, List.append_assoc]

theorem fileName_below (h : s.Spans names) : (s.root.below names).fileName = lastName names := by
  obtain ⟨front, name, rfl, named, path⟩ := h.exists_last
  rw [path, Path.fileName, Path.fileName?_named _ [] name named (by simp), lastName_concat]
  rfl

theorem newPath?_below (mode : CaseMode) (h : s.Spans names) :
    newPath? mode (s.root.below names) = none ↔ ¬ Changes mode names := by
  obtain ⟨front, name, rfl, named, path⟩ := h.exists_last
  rw [path, newPath?_concat mode _ name named, Changes, lastName_concat]
  simp

theorem depth_below (h : s.Spans names) :
    (s.root.below names).depth = (Path.ancestors s.root.folder).length + names.length := by
  rw [s.root.below_eq names h.filled h.named, Path.depth_below _ names h.filled h.named]

theorem wayEnd_below (h : s.Spans names) :
    wayEnd [] (s.root.below names).segments = s.location ++ names := by
  have folder : wayEnd [] s.root.folder = s.location := by
    rw [← wayEnd_steps, Path.steps_folder, wayEnd_steps, location]
  rw [s.root.below_eq names h.filled h.named, wayEnd_append, folder]
  exact wayEnd_names _ names (fun name hn => Path.isIdle_of_isEntryName name (h.named name hn))
    fun up => (h.named _ up).notParent rfl

theorem accepts_below (h : s.Spans names) (proper : fs.tree.IsProper)
    (looks : s.filter.LooksAtNames) (there : fs.pathExists (s.root.below names) = true) :
    ∃ n, fs.tree.get? (s.location ++ names) = some n ∧
      s.filter.accepts fs (s.root.below names) =
        (s.filter.admitsName (lastName names) && s.filter.kind.all (·.admits n.isDirectory)) := by
  obtain ⟨l, located⟩ := fs.exists_locate_of_pathExists _ there
  obtain ⟨-, walked⟩ := (Place.locate_eq_ok_iff fs.tree proper.noLinks true _ l).mp located
  obtain rfl : l = s.location ++ names := by
    rw [fs.tree.eq_wayEnd_of_walkTo? [] l _ walked, h.wayEnd_below]
  have contained := fs.tree.contains_of_walkTo? proper.closed [] _ _ rfl walked _
    (fs.tree.mem_stations_of_walkTo? [] _ _ walked)
  obtain ⟨n, found⟩ := (fs.tree.contains_iff _).mp contained
  refine ⟨n, found, ?_⟩
  rw [Filter.accepts_eq looks, there, Bool.true_and, h.fileName_below,
    fs.isDirectory_of_locate _ _ located, FileTree.isDirectory, found]
  rfl

end Spans

theorem lastName_append (l names : Location) (filled : names ≠ []) :
    lastName (l ++ names) = lastName names := by
  rw [lastName, lastName, List.getLast?_append_of_ne_nil _ filled]

theorem Wants.transfer {t u : FileTree} (h : s.Wants t names) (others : Location)
    (named : ∀ name ∈ others, IsEntryName name) (level : others.length = names.length)
    (last : lastName others = lastName names)
    (same : u.get? (s.location ++ others) = t.get? (s.location ++ names)) : s.Wants u others where
  filled := by
    intro none
    rw [none, List.length_nil] at level
    exact h.filled (List.length_eq_zero_iff.mp level.symm)
  named := named
  level := fun single => level.trans (h.level single)
  found := same ▸ h.found
  admitted := last ▸ h.admitted
  changes := by
    rw [Changes, last]
    exact h.changes

section
variable (proper : fs.tree.IsProper) {front : Location} {name : String}
  (spans : s.Spans (front ++ [name])) {new : Path}
  (hnew : newPath? s.mode (s.root.below (front ++ [name])) = some new)
  (h : fs.rename (s.root.below (front ++ [name])) new = .ok fs')

include proper spans hnew h in
theorem mem_iff_of_rename :
    wayEnd [] new.segments = s.location ++ (front ++ [FileName.renamed s.mode name]) ∧
      (FileName.renamed s.mode name = name ∧ fs' = fs ∨
        ∀ e, e ∈ fs'.tree.entries ↔
          (e ∈ fs.tree.entries ∧ ¬ s.location ++ (front ++ [name]) <+: e.1 ∧
            e.1 ≠ s.location ++ (front ++ [FileName.renamed s.mode name])) ∨
          ∃ rest, (s.location ++ (front ++ [name]) ++ rest, e.2) ∈ fs.tree.entries ∧
            e.1 = s.location ++ (front ++ [FileName.renamed s.mode name]) ++ rest) := by
  obtain ⟨source, target, n, hold, hnew', found, -, sameParent, newName⟩ :=
    names_of_newPath? proper.isEntryName_of_mem hnew h
  have here : source.location = s.location ++ (front ++ [name]) := by
    rw [LastName.location_eq_wayEnd proper.noLinks hold, spans.wayEnd_below]
  have split := here
  rw [LastName.location, ← List.append_assoc] at split
  obtain ⟨parent, last⟩ := List.append_inj' split rfl
  have beside : target.location = s.location ++ (front ++ [FileName.renamed s.mode name]) := by
    rw [LastName.location, sameParent, newName, parent, (List.cons.inj last).1, List.append_assoc]
  refine ⟨by rw [← LastName.location_eq_wayEnd proper.noLinks hnew', beside], ?_⟩
  rcases moves_of_rename hold hnew' found h with ⟨same, rfl⟩ | ⟨-, empty, moved⟩
  · rw [here, beside] at same
    have sameName := List.append_cancel_left (List.append_cancel_left same)
    exact .inl ⟨(List.cons.inj sameName).1.symm, rfl⟩
  · rw [moved, ← here, ← beside]
    have filled : source.location ≠ [] ∧ target.location ≠ [] := by simp [LastName.location]
    exact .inr (fs.tree.mem_move_iff_of_bare _ _ filled.1 filled.2 n
      ((fs.tree.get?_eq_some_iff _ filled.1 n).mp found) (proper.closed.bare _ empty))

include proper spans hnew h in
/-- What is still to be renamed was to be renamed before: it has not moved, or it was moved with
what it lies below. -/
theorem Wants.of_rename (wants : s.Wants fs'.tree names) :
    ∃ before, s.Wants fs.tree before ∧ before ≠ front ++ [name] ∧
      (before = names ∨ (front ++ [name]).length < before.length) := by
  have filled : ∀ others, others ≠ [] → s.location ++ others ≠ [] := fun others hne =>
    List.append_ne_nil_of_right_ne_nil _ hne
  obtain ⟨-, ⟨same, rfl⟩ | listed⟩ := mem_iff_of_rename proper spans hnew h
  · refine ⟨names, wants, ?_, .inl rfl⟩
    rintro rfl
    exact wants.changes (by rw [lastName_concat, same])
  obtain ⟨n, found, admitted⟩ := wants.found
  rcases (listed _).mp ((fs'.tree.get?_eq_some_iff _ (filled names wants.filled) n).mp found) with
    ⟨member, outside, -⟩ | ⟨rest, member, place⟩
  · refine ⟨names, wants.transfer names wants.named rfl rfl ?_, ?_, .inl rfl⟩
    · rw [found, fs.tree.get?_eq_some_iff _ (filled names wants.filled) n]
      exact member
    · rintro rfl
      exact outside (List.prefix_refl _)
  · -- it lies below what was renamed, since the new name itself has its case
    rw [List.append_assoc] at member place
    obtain rfl := List.append_cancel_left place
    have more : rest ≠ [] := by
      rintro rfl
      apply wants.changes
      rw [List.append_nil, lastName_concat, FileName.renamed_renamed]
    refine ⟨front ++ [name] ++ rest, wants.transfer _ ?_ ?_ ?_ ?_, ?_, .inr ?_⟩
    · intro part hp
      exact proper.isEntryName_of_mem _ member part (List.mem_append_right _ hp)
    · simp
    · rw [lastName_append _ _ more, lastName_append _ _ more]
    · rw [found, fs.tree.get?_eq_some_iff _ (filled _ (by simp)) n]
      exact member
    · simpa using more
    · simpa [List.length_pos_iff] using more

include proper spans hnew h in
theorem stays_of_rename (plain : s.root.IsPlain)
    (there : fs.tree.isDirectory s.location = true) :
    fs'.tree.IsProper ∧ fs'.tree.isDirectory s.location = true := by
  obtain ⟨place, -⟩ := mem_iff_of_rename proper spans hnew h
  have spelled : s.root.below (front ++ [name]) = ⟨s.root.folder ++ front ++ [name]⟩ := by
    rw [s.root.below_eq _ spans.filled spans.named, List.append_assoc]
  have named := spans.named name (by simp)
  have before : ∀ segment ∈ s.root.folder ++ front, '/' ∉ segment.toList := by
    intro segment hs
    rcases List.mem_append.mp hs with hs | hs
    · exact plain segment (s.root.mem_of_mem_folder segment hs)
    · exact (spans.named segment (List.mem_append_left _ hs)).noSlash
  have plainOld : (s.root.below (front ++ [name])).IsPlain := by
    rw [spelled]
    exact List.forall_mem_append.mpr
      ⟨before, List.forall_mem_singleton.mpr named.noSlash⟩
  have plainNew : new.IsPlain := by
    rw [spelled] at hnew
    obtain rfl := newPath?_named s.mode _ [] name named (by simp) new hnew
    obtain ⟨idle, trimmed, -⟩ := Path.trimmedFront_append (s.root.folder ++ front)
    refine List.forall_mem_append.mpr
      ⟨fun segment hs => before segment ?_, List.forall_mem_singleton.mpr (named.renamed s.mode).noSlash⟩
    rw [trimmed]
    exact List.mem_append_left _ hs
  refine ⟨(Call.rename _ new).isProper_of_perform proper ?_ h, ?_⟩
  · exact List.forall_mem_cons.mpr ⟨plainOld, List.forall_mem_singleton.mpr plainNew⟩
  · refine isDirectory_of_rename there proper ?_ h
    rw [place]
    exact liesBelow_append _ _ (by simp)

end

/-- A list of paths of entries below the directory, none before a deeper one, that names all that
is still to be renamed. -/
structure Covers (s : Search) (t : FileTree) (entries : List Path) : Prop where
  below : ∀ entry ∈ entries, ∃ names, s.Spans names ∧ entry = s.root.below names
  deepest : entries.Pairwise fun p q => q.depth ≤ p.depth
  all : ∀ names, s.Wants t names → s.root.below names ∈ entries

theorem Covers.of_kept {t : FileTree} {old : Path} {rest : List Path}
    (h : s.Covers t (old :: rest)) (kept : newPath? s.mode old = none) : s.Covers t rest where
  below := fun entry member => h.below entry (List.mem_cons_of_mem _ member)
  deepest := (List.pairwise_cons.mp h.deepest).2
  all := by
    intro names wants
    rcases List.mem_cons.mp (h.all names wants) with same | later
    · rw [← same] at kept
      exact absurd wants.changes ((wants.newPath?_below s.mode).mp kept)
    · exact later

theorem Covers.of_rename (proper : fs.tree.IsProper) {old new : Path} {rest : List Path}
    (h : s.Covers fs.tree (old :: rest)) (hnew : newPath? s.mode old = some new)
    (renamed : fs.rename old new = .ok fs') : s.Covers fs'.tree rest where
  below := fun entry member => h.below entry (List.mem_cons_of_mem _ member)
  deepest := (List.pairwise_cons.mp h.deepest).2
  all := by
    intro names wants
    obtain ⟨there, spans, rfl⟩ := h.below old (List.mem_cons_self ..)
    obtain ⟨front, name, rfl, -⟩ := spans.exists_last
    obtain ⟨before, wanted, other, same | deeper⟩ := wants.of_rename proper spans hnew renamed
    · subst same
      rcases List.mem_cons.mp (h.all before wanted) with equal | later
      · have place := congrArg (fun p => wayEnd [] p.segments) equal
        simp only [wanted.wayEnd_below, spans.wayEnd_below] at place
        exact absurd (List.append_cancel_left place) other
      · exact later
    · have listed := h.all before wanted
      have shallow : (s.root.below before).depth ≤ (s.root.below (front ++ [name])).depth := by
        rcases List.mem_cons.mp listed with equal | later
        · exact Nat.le_of_eq (congrArg Path.depth equal)
        · exact (List.pairwise_cons.mp h.deepest).1 _ later
      rw [wanted.depth_below, spans.depth_below] at shallow
      omega

theorem Covers.settles (proper : fs.tree.IsProper) (plain : s.root.IsPlain)
    (there : fs.tree.isDirectory s.location = true) {entries : List Path}
    (h : s.Covers fs.tree entries) (done : renameEach s.mode fs entries = (fs', .ok ())) :
    fs'.tree.IsProper ∧ fs'.tree.isDirectory s.location = true ∧
      ∀ names, ¬ s.Wants fs'.tree names := by
  induction entries generalizing fs with
  | nil =>
    cases done
    exact ⟨proper, there, fun names wants => List.not_mem_nil (h.all names wants)⟩
  | cons old rest ih =>
    rw [renameEach] at done
    split at done
    · rename_i kept
      exact ih proper there (h.of_kept kept) done
    · rename_i new hnew
      split at done
      · cases done
      · rename_i fs₁ renamed
        have later := h.of_rename proper hnew renamed
        obtain ⟨names, spans, rfl⟩ := h.below old (List.mem_cons_self ..)
        obtain ⟨front, name, rfl, -⟩ := spans.exists_last
        obtain ⟨proper₁, there₁⟩ := stays_of_rename proper spans hnew renamed plain there
        exact ih proper₁ there₁ later done

theorem exists_candidates (proper : fs.tree.IsProper)
    (directory : fs.isDirectory s.root = true) (instruction : String)
    (chained : Option ResultSet) (own : s.recursive = true ∨ chained = none) :
    ∃ entries, candidates fs instruction s.recursive s.root chained = .ok entries ∧
      ∀ entry, entry ∈ entries ↔ ∃ names, s.Spans names ∧
        fs.tree.contains (s.location ++ names) = true ∧ entry = s.root.below names := by
  obtain ⟨l, located, isFolder⟩ := fs.exists_locate_of_isDirectory _ directory
  obtain ⟨-, walked⟩ := (Place.locate_eq_ok_iff fs.tree proper.noLinks true _ l).mp located
  obtain rfl : l = s.location := fs.tree.eq_wayEnd_of_walkTo? [] l _ walked
  have named : ∀ names, fs.tree.contains (s.location ++ names) = true →
      ∀ name ∈ names, IsEntryName name := fun names there name hn =>
    (proper.legal_of_contains _ there name (List.mem_append_right _ hn)).1
  unfold candidates
  cases level : s.recursive with
  | true =>
    refine ⟨_, rfl, fun entry => ?_⟩
    rw [walk, located]
    constructor
    · intro listed
      obtain ⟨⟨names, n⟩, under, rfl⟩ := List.mem_map.mp listed
      obtain ⟨filled, there⟩ := (exists_mem_under_iff _ _ names).mp ⟨n, under⟩
      exact ⟨names, ⟨filled, named names there, fun single => by simp [level] at single⟩, there, rfl⟩
    · rintro ⟨names, spans, there, rfl⟩
      obtain ⟨n, under⟩ := (exists_mem_under_iff _ _ names).mpr ⟨spans.filled, there⟩
      exact List.mem_map.mpr ⟨_, under, rfl⟩
  | false =>
    obtain rfl := own.resolve_left (by simp [level])
    have listed : fs.children s.root =
        .ok ((fs.tree.children s.location).map fun name => s.root.below [name]) := by
      simp only [FileSystem.children, located, bind, Except.bind, isFolder, if_true, pure, Except.pure]
    refine ⟨_, by rw [listed]; rfl, fun entry => ?_⟩
    constructor
    · intro member
      obtain ⟨name, child, rfl⟩ := List.mem_map.mp member
      have there := (mem_children_iff _ _ name).mp child
      exact ⟨[name], ⟨by simp, named _ there, fun _ => rfl⟩, there, rfl⟩
    · rintro ⟨names, spans, there, rfl⟩
      obtain ⟨name, rfl⟩ := List.length_eq_one_iff.mp (spans.level level)
      exact List.mem_map.mpr ⟨name, (mem_children_iff _ _ name).mpr there, rfl⟩

/-- What the filter admits among the entries to choose from is what is to be renamed, and what is
in its case already. -/
theorem wants_or_kept (proper : fs.tree.IsProper) (looks : s.filter.LooksAtNames)
    (spans : s.Spans names) (accepted : s.filter.accepts fs (s.root.below names) = true) :
    s.Wants fs.tree names ∨ newPath? s.mode (s.root.below names) = none := by
  have there : fs.pathExists (s.root.below names) = true := by
    rw [Filter.accepts_eq looks] at accepted
    exact (Bool.and_eq_true_iff.mp accepted).1
  obtain ⟨n, found, told⟩ := spans.accepts_below proper looks there
  rw [told, Bool.and_eq_true_iff] at accepted
  by_cases changes : Changes s.mode names
  · exact .inl ⟨spans, ⟨n, found, accepted.2⟩, accepted.1, changes⟩
  · exact .inr ((spans.newPath?_below s.mode).mpr changes)

theorem covers_deepestFirst (proper : fs.tree.IsProper) (looks : s.filter.LooksAtNames)
    (entries : List Path) (listed : ∀ entry, entry ∈ entries ↔ ∃ names, s.Spans names ∧
      fs.tree.contains (s.location ++ names) = true ∧ entry = s.root.below names)
    (found : ∀ entry ∈ entries, fs.pathExists entry = true) :
    s.Covers fs.tree (deepestFirst (s.filter.apply fs entries)) where
  below := by
    intro entry member
    obtain ⟨names, spans, -, rfl⟩ := (listed entry).mp
      (List.mem_of_mem_filter ((deepestFirst_perm _).mem_iff.mp member))
    exact ⟨names, spans, rfl⟩
  deepest := deepestFirst_deepest _
  all := by
    intro names wants
    obtain ⟨n, here, kind⟩ := wants.found
    have member := (listed _).mpr
      ⟨names, wants.toSpans, (fs.tree.contains_iff _).mpr ⟨n, here⟩, rfl⟩
    obtain ⟨m, here', told⟩ := wants.accepts_below proper looks (found _ member)
    obtain rfl : n = m := Option.some.inj (here.symm.trans here')
    rw [wants.admitted, kind] at told
    exact (deepestFirst_perm _).mem_iff.mpr (List.mem_filter.mpr ⟨member, told⟩)

end Search

section
variable {fs fs' : FileSystem} {dir : Path} {memory : Memory} {declared : Instruction}
  {condition : Option Condition} {params : Parameters} {path mode : String} {f : Filter}

def Search.ofParameters (dir : Path) (memory : Memory) (params : Parameters) (path mode : String)
    (f : Filter) : Search where
  root := (target dir memory path).1
  mode := .ofText mode
  filter := f
  recursive := isRecursive params

theorem settled_of_run (proper : fs.tree.IsProper)
    (merged : declared.merged .rename condition memory = .ok params)
    (noDate : params.find? "modified_date" = none) (noSize : params.find? "size" = none)
    (given : params.find? "path" = some path)
    (own : isRecursive params = true ∨ (target dir memory path).2 = none)
    (found : ∀ entries, candidates fs declared.name (isRecursive params) (target dir memory path).1
      (target dir memory path).2 = .ok entries → ∀ entry ∈ entries, fs.pathExists entry = true)
    (h : run fs dir memory declared condition = (fs', .ok ())) :
    ∃ mode f, params.find? "mode" = some mode ∧ Filter.ofParameters params ownKeys = .ok f ∧
      f.LooksAtNames ∧ Place.checkText (target dir memory path).1 = .ok () ∧ fs'.tree.IsProper ∧
      fs'.tree.isDirectory (wayEnd [] (target dir memory path).1.segments) = true ∧
      ∀ names, ¬ (Search.ofParameters dir memory params path mode f).Wants fs'.tree names := by
  cases planned : plan fs dir memory declared condition with
  | error e =>
    rw [run, planned] at h
    cases h
  | ok p =>
    obtain ⟨params', path', mode, f, entries, merged', given', moded, read, -, directory, chosen,
      rfl⟩ := (plan_eq_ok_iff memory declared condition p).mp planned
    obtain rfl := Except.ok.inj (merged'.symm.trans merged)
    obtain rfl := Option.some.inj (given'.symm.trans given)
    have looks := (Filter.ofParameters_cases read (by decide)).2 noDate noSize
    let s := Search.ofParameters dir memory params' path' mode f
    obtain ⟨asked, there⟩ := isDirectory_wayEnd proper s.root directory
    obtain ⟨l, located, -⟩ := fs.exists_locate_of_isDirectory _ directory
    obtain ⟨-, walked⟩ := (Place.locate_eq_ok_iff fs.tree proper.noLinks true _ l).mp located
    have plain : s.root.IsPlain := isPlain_of_walkTo? proper [] l _ walked
    obtain ⟨same, chosen', listed⟩ := s.exists_candidates proper directory declared.name _ own
    obtain rfl := Except.ok.inj (chosen'.symm.trans chosen)
    have covers := Search.covers_deepestFirst (s := s) proper looks _ listed (found _ chosen)
    rw [run, planned] at h
    exact ⟨mode, f, moded, read, looks, asked, covers.settles proper plain there h⟩

end

end SimpleFiles.Rename
