import SimpleFiles.Proofs.FileSystem.Directories
import SimpleFiles.Proofs.FileSystem.Ending
import SimpleFiles.Proofs.Path.Joining

/-! Calls that make entries, in any tree, links included. What is made was not there before,
is where its path leads afterwards, and nothing else is new but the directories above it. -/
namespace SimpleFiles

namespace FileTree

/-- A path leads to a new entry, and nothing else has changed. -/
structure Adds (t : FileTree) (p : Path) (l : Location) (n : Node) (u : FileTree) : Prop where
  free : t.get? l = none
  located : Place.locate u true p = .ok l
  get? : ∀ m, u.get? m = if m = l then some n else t.get? m

/-- A path leads to a directory and then along segments without dots. -/
structure Descends (t : FileTree) (p : Path) (front rest : List String) (start : Location) :
    Prop where
  split : p.segments = front ++ rest
  leads : Place.Leads t true Place.maxLinks [] front start
  directory : t.isDirectory start = true
  plain : ∀ s ∈ rest, '/' ∉ s.toList ∧ '.' ∉ s.toList

def LeadsAbove (t : FileTree) (p : Path) (l : Location) : Prop :=
  ∃ q : Path, q.IsAncestor p ∧ Place.locate t true q = .ok l

namespace Adds

variable {t u : FileTree} {p : Path} {l : Location} {n : Node}

theorem gains {new : Location → Node → Prop} (h : t.Adds p l n u) (isNew : new l n) :
    t.Gains new u :=
  .of_get? l n h.free h.get? isNew

theorem found (h : t.Adds p l n u) : u.get? l = some n := by
  rw [h.get?, if_pos rfl]

end Adds
end FileTree

namespace FileSystem

open FileTree

variable {fs fs' : FileSystem} {p : Path}

theorem isClosed_add (closed : fs.tree.IsClosed) (parent : Location) (name : String) (n : Node)
    (directory : fs.tree.isDirectory parent = true)
    (free : fs.tree.get? (parent ++ [name]) = none) : (fs.add parent name n).tree.IsClosed := by
  refine closed.insert parent name n directory ?_
  rw [FileTree.isDirectory, free]
  rfl

theorem lastName_of_createDirectory (h : fs.createDirectory p = .ok fs') :
    ∃ last, LastName.ofPath fs.tree p = .ok (some last) ∧ fs.tree.get? last.location = none ∧
      fs' = fs.add last.parent last.name .directory := by
  unfold createDirectory at h
  simp only [bind, Except.bind] at h
  split at h
  · cases h
  rename_i found hf
  cases found with
  | none => cases h
  | some last =>
    simp only at h
    split at h
    · cases h
    · rename_i vacant
      cases h
      rw [Bool.not_eq_true, contains_eq_false_iff] at vacant
      exact ⟨last, hf, vacant, rfl⟩

theorem lastName_of_createFile (h : fs.createFile p = .ok fs') :
    ∃ last, LastName.ofPath fs.tree p = .ok (some last) ∧ last.hasSlash = false ∧
      fs.tree.get? last.location = none ∧ fs' = fs.add last.parent last.name (.file .empty) := by
  unfold createFile at h
  simp only [bind, Except.bind] at h
  split at h
  · cases h
  rename_i found hf
  cases found with
  | none => cases h
  | some last =>
    simp only at h
    split at h
    · cases h
    rename_i noSlash
    split at h
    · cases h
    · rename_i vacant
      cases h
      rw [Bool.not_eq_true, contains_eq_false_iff] at vacant
      exact ⟨last, hf, by simpa using noSlash, vacant, rfl⟩

theorem adds_of_createDirectory (h : fs.createDirectory p = .ok fs') :
    ∃ l, fs.tree.Adds p l .directory fs'.tree := by
  obtain ⟨last, found, free, rfl⟩ := lastName_of_createDirectory h
  obtain ⟨front, slashes, ends⟩ := LastName.exists_ends found
  exact ⟨last.location, free, ends.locate_of_insert free _ rfl (.inl rfl),
    get?_insert _ _ (by simp) _⟩

theorem isClosed_createDirectory (closed : fs.tree.IsClosed) (h : fs.createDirectory p = .ok fs') :
    fs'.tree.IsClosed := by
  obtain ⟨last, found, free, rfl⟩ := lastName_of_createDirectory h
  obtain ⟨front, slashes, ends⟩ := LastName.exists_ends found
  exact isClosed_add closed _ _ _ ends.directory free

theorem adds_of_createFile (h : fs.createFile p = .ok fs') :
    ∃ l, fs.tree.Adds p l (.file .empty) fs'.tree := by
  obtain ⟨last, found, noSlash, free, rfl⟩ := lastName_of_createFile h
  obtain ⟨front, slashes, ends⟩ := LastName.exists_ends found
  exact ⟨last.location, free, ends.locate_of_insert free _ rfl (.inr noSlash),
    get?_insert _ _ (by simp) _⟩

theorem isClosed_createFile (closed : fs.tree.IsClosed) (h : fs.createFile p = .ok fs') :
    fs'.tree.IsClosed := by
  obtain ⟨last, found, -, free, rfl⟩ := lastName_of_createFile h
  obtain ⟨front, slashes, ends⟩ := LastName.exists_ends found
  exact isClosed_add closed _ _ _ ends.directory free

theorem not_located_of_createFile (h : fs.createFile p = .ok fs') (l : Location) :
    Place.locate fs.tree false p ≠ .ok l := by
  obtain ⟨last, found, noSlash, free, rfl⟩ := lastName_of_createFile h
  obtain ⟨front, slashes, ends⟩ := LastName.exists_ends found
  obtain rfl := ends.bare noSlash
  obtain ⟨fewer, place⟩ := ends.ofPath_bare false
  rw [Ne, Place.locate_iff_ofPath, place, ends.walk_name, free]
  intro lost
  cases lost

theorem exists_located_of_createFile (closed : fs.tree.IsClosed)
    (h : fs.createFile p = .error .entryExists) :
    ∃ l, Place.locate fs.tree false p = .ok l := by
  unfold createFile at h
  simp only [bind, Except.bind] at h
  split at h
  · rename_i e failed
    cases h
    exact absurd failed (LastName.ofPath_ne_entryExists p)
  rename_i found hf
  cases found with
  | none => exact LastName.exists_locate_of_none closed false hf
  | some last =>
    obtain ⟨front, slashes, ends⟩ := LastName.exists_ends hf
    simp only at h
    split at h
    · cases h
    rename_i noSlash
    obtain rfl := ends.bare (by simpa using noSlash)
    split at h
    · rename_i taken
      obtain ⟨n, hn⟩ := (fs.tree.contains_iff _).mp taken
      obtain ⟨fewer, place⟩ := ends.ofPath_bare false
      refine ⟨last.location, ?_⟩
      rw [Place.locate_iff_ofPath, place, ends.walk_name, hn]
      cases n with
      | link target => rfl
      | file content => cases fewer <;> rfl
      | directory => cases fewer <;> rfl
    · cases h

theorem createFile_taken_iff :
    fs.createFile p = .error .entryExists ↔ ∃ found, LastName.ofPath fs.tree p = .ok found ∧
      ∀ last ∈ found, last.hasSlash = false ∧ fs.tree.contains last.location = true := by
  unfold createFile
  cases hf : LastName.ofPath fs.tree p with
  | error e =>
    simp only [bind, Except.bind]
    refine ⟨fun failed => ?_, nofun⟩
    cases failed
    exact absurd hf (LastName.ofPath_ne_entryExists p)
  | ok found =>
    cases found with
    | none => simp [bind, Except.bind, throw, throwThe, MonadExceptOf.throw]
    | some last =>
      cases slash : last.hasSlash <;> cases taken : fs.tree.contains last.location <;>
        simp [bind, Except.bind, pure, Except.pure, throw, throwThe, MonadExceptOf.throw, slash,
          taken]

theorem createFile_taken_of_grows {changed : Location → Prop}
    (grown : fs.tree.Grows changed fs'.tree) (h : fs.createFile p = .error .entryExists) :
    fs'.createFile p = .error .entryExists := by
  obtain ⟨found, ends, taken⟩ := createFile_taken_iff.mp h
  exact createFile_taken_iff.mpr ⟨found, LastName.ofPath_of_grows grown ends, fun last here =>
    ⟨(taken last here).1, grown.contains _ (taken last here).2⟩⟩

theorem createFile_again (h : fs.createFile p = .ok fs') :
    fs'.createFile p = .error .entryExists := by
  obtain ⟨last, found, noSlash, free, rfl⟩ := lastName_of_createFile h
  have grown : fs.tree.Grows (fun _ => False) (fs.add last.parent last.name (.file .empty)).tree :=
    grows_insert fs.tree last.location _ free
  refine createFile_taken_iff.mpr ⟨_, LastName.ofPath_of_grows grown found, ?_⟩
  rintro _ ⟨⟩
  refine ⟨noSlash, (contains_iff _ _).mpr ⟨.file .empty, ?_⟩⟩
  rw [add, LastName.location, get?_insert _ _ (by simp), if_pos rfl]

theorem createAllUpTo_gains (depth : Nat) (fs : FileSystem) (p : Path) :
    fs.tree.Gains (fun l n => n = .directory ∧ (createAllUpTo depth fs p).1.tree.LeadsAbove p l)
      (createAllUpTo depth fs p).1.tree := by
  refine createAllUpTo_of_steps fs (fun p fs' => fs.tree.Gains
    (fun l n => n = .directory ∧ fs'.tree.LeadsAbove p l) fs'.tree)
    (fun _ => .refl _ _) ?_ ?_ depth p
  · intro p q fs' parent gained
    refine gained.mono ?_
    rintro l n ⟨directory, r, ancestor, located⟩
    exact ⟨directory, r, .above parent ancestor, located⟩
  · intro p fs₁ fs' gained created
    obtain ⟨l, added⟩ := adds_of_createDirectory created
    have last : fs₁.tree.Gains (fun l n => n = .directory ∧ fs'.tree.LeadsAbove p l) fs'.tree :=
      added.gains ⟨rfl, p, .self p, added.located⟩
    -- an ancestor leads to the same place when the tree has grown
    refine (gained.mono ?_).trans last
    rintro m n ⟨directory, r, ancestor, located⟩
    exact ⟨directory, r, ancestor,
      Place.locate_of_grows (last.grows fun _ => False) r m located⟩

theorem createAll_gains (fs : FileSystem) (p : Path) :
    fs.tree.Gains (fun l n => n = .directory ∧ (fs.createAll p).1.tree.LeadsAbove p l)
      (fs.createAll p).1.tree :=
  createAllUpTo_gains (p.depth + 1) fs p

theorem isClosed_createAllUpTo (depth : Nat) (fs : FileSystem) (p : Path)
    (closed : fs.tree.IsClosed) : (createAllUpTo depth fs p).1.tree.IsClosed :=
  createAllUpTo_of_steps fs (fun _ fs' => fs'.tree.IsClosed) (fun _ => closed)
    (fun _ _ _ _ closed => closed)
    (fun _ _ _ closed created => isClosed_createDirectory closed created) depth p

theorem isClosed_createAll (p : Path) (closed : fs.tree.IsClosed) :
    (fs.createAll p).1.tree.IsClosed :=
  isClosed_createAllUpTo (p.depth + 1) fs p closed

theorem isDirectory_of_adds {l : Location} (h : fs.tree.Adds p l .directory fs'.tree) :
    fs'.isDirectory p = true := by
  rw [isDirectory, h.located]
  exact (isDirectory_iff _ _).mpr h.found

theorem isDirectory_of_createAllUpTo (depth : Nat) (filled : p ≠ .empty)
    (h : createAllUpTo depth fs p = (fs', .ok ())) : fs'.isDirectory p = true := by
  cases depth with
  | zero => cases h
  | succ depth =>
    rw [createAllUpTo, if_neg filled] at h
    split at h
    · rename_i made
      cases h
      obtain ⟨l, added⟩ := adds_of_createDirectory made
      exact isDirectory_of_adds added
    · split at h
      · cases h
      · split at h
        · cases h
        · split at h
          · rename_i made
            cases h
            obtain ⟨l, added⟩ := adds_of_createDirectory made
            exact isDirectory_of_adds added
          · split at h
            · rename_i there
              cases h
              exact there
            · cases h
    · split at h
      · rename_i there
        cases h
        exact there
      · cases h

theorem isDirectory_of_createAll (filled : p ≠ .empty) (h : fs.createAll p = (fs', .ok ())) :
    fs'.isDirectory p = true :=
  isDirectory_of_createAllUpTo (p.depth + 1) filled h

theorem createDirectory_ne_noEntry (front idle slashes : List String) (name : String)
    (l : Location) (leads : Place.Leads fs.tree true Place.maxLinks [] front l)
    (allIdle : ∀ s ∈ idle, Path.isIdle s = true) (named : IsEntryName name)
    (allEmpty : ∀ s ∈ slashes, s = "")
    (asked : Place.checkText ⟨front ++ idle ++ name :: slashes⟩ = .ok ()) :
    fs.createDirectory ⟨front ++ idle ++ name :: slashes⟩ ≠ .error .noEntry := by
  intro h
  unfold createDirectory at h
  rw [LastName.ofPath_named fs.tree (front ++ idle) slashes name named allEmpty asked] at h
  by_cases directory : fs.tree.isDirectory l = true
  · rw [(leads.append_idle directory allIdle).walk] at h
    simp only [directory, Bool.not_true, Bool.false_eq_true, if_false] at h
    split at h
    · cases h
    · simp only [bind, Except.bind] at h
      split at h <;> cases h
  · rw [Bool.not_eq_true] at directory
    cases idle with
    | nil =>
      rw [List.append_nil, leads.walk] at h
      simp only [directory, Bool.not_false, if_true] at h
      cases h
    | cons s rest =>
      obtain ⟨fewer, walked⟩ := leads.walk_append true (s :: rest) (List.cons_ne_nil _ _)
      rw [walked, Place.walk_cons, directory] at h
      cases h

theorem walk_below_of_adds {t u : FileTree} {q : Path} {l : Location} (closed : t.IsClosed)
    (h : t.Adds q l .directory u) (front idle slashes : List String) (name : String)
    (leads : Place.Leads u true Place.maxLinks [] front l)
    (allIdle : ∀ s ∈ idle, Path.isIdle s = true) (named : IsEntryName name) (m : Location) :
    Place.walk u true Place.maxLinks [] (front ++ idle ++ name :: slashes) ≠ .ok (.entry m) := by
  have directory : u.isDirectory l = true := (isDirectory_iff _ _).mpr h.found
  have empty : u.get? (l ++ [name]) = none := by
    rw [h.get?, if_neg (by simp)]
    exact closed.get?_of_missing l [name] h.free
  obtain ⟨fewer, walked⟩ := (leads.append_idle directory allIdle).walk_append true
    (name :: slashes) (List.cons_ne_nil _ _)
  rw [walked, Place.walk_cons, directory, Path.isIdle_of_isEntryName name named,
    if_neg named.notParent, empty]
  simp only [Bool.not_true, Bool.false_eq_true, if_false]
  split
  · exact nofun
  · split <;> exact nofun

structure NamesIn (q p : Path) (above trailing between slashes : List String) (name : String) :
    Prop where
  parent : q.segments = above ++ trailing
  path : p.segments = above ++ between ++ name :: slashes
  trailingEmpty : ∀ s ∈ trailing, s = ""
  betweenIdle : ∀ s ∈ between, Path.isIdle s = true
  named : IsEntryName name
  slashesEmpty : ∀ s ∈ slashes, s = ""

theorem isIdle_of_empty (segments : List String) (allEmpty : ∀ s ∈ segments, s = "") :
    ∀ s ∈ segments, Path.isIdle s = true := by
  intro s hs
  rw [allEmpty s hs]
  rfl

/-- A path that descends by two names or more has a parent that descends, too. It has as many when
it leads nowhere and is refused for want of the directory above it. -/
theorem exists_namesIn {q : Path} (front rest : List String) (start : Location)
    (descends : fs.tree.Descends p front rest start) (asked : Place.checkText p = .ok ())
    (lost : ∀ l, Place.locate fs.tree true p ≠ .ok l)
    (missing : fs.createDirectory p = .error .noEntry) (parent : p.parent? = some q) :
    ∃ above trailing between slashes name rest', NamesIn q p above trailing between slashes name ∧
      fs.tree.Descends q front rest' start ∧ q ≠ .empty := by
  obtain ⟨split, leads, directory, plain⟩ := descends
  obtain ⟨segments⟩ := p
  obtain rfl : segments = front ++ rest := split
  have noZero := ((Place.checkText_eq_ok_iff _).mp asked).1
  have plain' : ∀ s ∈ rest, '/' ∉ s.toList ∧ '.' ∉ s.toList ∧ '\x00' ∉ s.toList := by
    intro s hs
    refine ⟨(plain s hs).1, (plain s hs).2, fun zero => noZero ?_⟩
    exact (Path.mem_text_iff _ _ (by decide)).mpr ⟨s, List.mem_append_right _ hs, zero⟩
  rcases Path.exists_name_of_plain rest plain' with
    allEmpty | ⟨init, name, slashes, rfl, named, allEmpty⟩
  · exact absurd ((Place.locate_iff_leads _ start).mpr
      ⟨asked, leads.append_idle directory (isIdle_of_empty rest allEmpty)⟩) (lost start)
  rw [← List.append_assoc] at asked missing parent
  rcases Path.exists_name_of_plain init (fun s hs => plain' s (List.mem_append_left _ hs)) with
    initEmpty | ⟨before, first, between, rfl, firstNamed, betweenEmpty⟩
  · exact absurd missing (createDirectory_ne_noEntry front init slashes name start leads
      (isIdle_of_empty init initEmpty) named allEmpty asked)
  rw [← List.append_assoc] at parent
  obtain ⟨trailing, spelled, trailingEmpty⟩ := Path.segments_of_parent? (front ++ before) between
    slashes first name firstNamed named (isIdle_of_empty _ betweenEmpty)
    (isIdle_of_empty _ allEmpty) q parent
  refine ⟨front ++ before ++ [first], trailing, between, slashes, name,
    before ++ [first] ++ trailing, ⟨spelled, by simp, trailingEmpty,
      isIdle_of_empty _ betweenEmpty, named, allEmpty⟩,
    ⟨by simpa using spelled, leads, directory, ?_⟩, ?_⟩
  · intro s hs
    rcases List.mem_append.mp hs with hs | hs
    · refine plain s (List.mem_append_left _ ?_)
      rcases List.mem_append.mp hs with hs | hs
      · simp [hs]
      · simp [List.mem_singleton.mp hs]
    · rw [trailingEmpty s hs]
      exact ⟨List.not_mem_nil, List.not_mem_nil⟩
  · rintro rfl
    have inside : first ∈ Path.empty.segments := by simp [spelled]
    exact firstNamed.filled (List.mem_singleton.mp inside)

theorem not_isDirectory_of_made_above {q : Path} {fs₁ : FileSystem} (front rest : List String)
    (start : Location) (descends : fs.tree.Descends p front rest start)
    (lost : ∀ l, Place.locate fs.tree true p ≠ .ok l)
    (missing : fs.createDirectory p = .error .noEntry) (parent : p.parent? = some q)
    (above : ∀ rest', fs.tree.Descends q front rest' start → q ≠ .empty →
      (∀ l, Place.locate fs.tree true q ≠ .ok l) →
      ∃ (u : FileTree) (l : Location), u.IsClosed ∧ u.Adds q l .directory fs₁.tree) :
    fs₁.isDirectory p = false := by
  rw [Bool.eq_false_iff]
  intro there
  unfold isDirectory at there
  split at there
  · rename_i l located
    obtain ⟨asked, reached⟩ := (Place.locate_iff_leads p l).mp located
    obtain ⟨names, trailing, between, slashes, name, rest', goesOn, descends', notEmpty⟩ :=
      exists_namesIn front rest start descends asked lost missing parent
    have leadsAbove : ∀ (t : FileTree) (m : Location), Place.locate t true q = .ok m →
        Place.Leads t true Place.maxLinks [] names m := by
      intro t m hm
      have leads := ((Place.locate_iff_leads q m).mp hm).2
      rw [goesOn.parent] at leads
      exact leads.of_append_idle (isIdle_of_empty _ goesOn.trailingEmpty)
    obtain ⟨segments⟩ := p
    obtain rfl : segments = names ++ between ++ name :: slashes := goesOn.path
    have lostAbove : ∀ m, Place.locate fs.tree true q ≠ .ok m := fun m hm =>
      createDirectory_ne_noEntry names between slashes name m (leadsAbove _ m hm)
        goesOn.betweenIdle goesOn.named goesOn.slashesEmpty asked missing
    obtain ⟨u, k, closed, added⟩ := above rest' descends' notEmpty lostAbove
    exact walk_below_of_adds closed added names between slashes name
      (leadsAbove _ k added.located) goesOn.betweenIdle goesOn.named l reached.walk
  · cases there

theorem adds_of_createAllUpTo (depth : Nat) (fs fs' : FileSystem) (p : Path)
    (front rest : List String) (start : Location) (closed : fs.tree.IsClosed)
    (descends : fs.tree.Descends p front rest start) (filled : p ≠ .empty)
    (lost : ∀ l, Place.locate fs.tree true p ≠ .ok l)
    (h : createAllUpTo depth fs p = (fs', .ok ())) :
    ∃ (u : FileTree) (l : Location), u.IsClosed ∧ fs.tree.Gains (fun _ _ => True) u ∧
      u.Adds p l .directory fs'.tree := by
  induction depth generalizing fs' p rest with
  | zero => cases h
  | succ depth ih =>
    rw [createAllUpTo, if_neg filled] at h
    split at h
    · rename_i made
      cases h
      obtain ⟨l, added⟩ := adds_of_createDirectory made
      exact ⟨fs.tree, l, closed, .refl _ _, added⟩
    · rename_i missing
      split at h
      · cases h
      rename_i q parent
      split at h
      · cases h
      rename_i fs₁ above
      split at h
      · rename_i made
        cases h
        have gained := createAllUpTo_gains depth fs q
        have closed₁ := isClosed_createAllUpTo depth fs q closed
        rw [above] at gained closed₁
        obtain ⟨l, added⟩ := adds_of_createDirectory made
        exact ⟨fs₁.tree, l, closed₁, gained.mono fun _ _ _ => trivial, added⟩
      · have notThere : fs₁.isDirectory p = false := by
          refine not_isDirectory_of_made_above front rest start descends lost missing parent ?_
          intro rest' descends' filled' lost'
          obtain ⟨u, l, closed', -, added⟩ := ih fs₁ q rest' descends' filled' lost' above
          exact ⟨u, l, closed', added⟩
        rw [notThere] at h
        cases h
    · split at h
      · rename_i there
        cases h
        unfold isDirectory at there
        split at there
        · rename_i l located
          exact absurd located (lost l)
        · cases there
      · cases h

theorem adds_of_createAll (front rest : List String) (start : Location)
    (closed : fs.tree.IsClosed) (descends : fs.tree.Descends p front rest start)
    (filled : p ≠ .empty) (lost : ∀ l, Place.locate fs.tree true p ≠ .ok l)
    (h : fs.createAll p = (fs', .ok ())) :
    ∃ (u : FileTree) (l : Location), u.IsClosed ∧ fs.tree.Gains (fun _ _ => True) u ∧
      u.Adds p l .directory fs'.tree :=
  adds_of_createAllUpTo (p.depth + 1) fs fs' p front rest start closed descends filled lost h

theorem adds_of_write_again {fs₁ : FileSystem} {l : Location} {old : ByteArray}
    (content : ByteArray) (closed : fs₁.tree.IsClosed)
    (added : fs.tree.Adds p l (.file old) fs₁.tree) (h : fs₁.write p content = .ok fs') :
    fs'.tree.IsClosed ∧ fs.tree.Adds p l (.file content) fs'.tree := by
  have reached := (Place.locate_iff_ofPath p l).mp added.located
  rcases write_cases p content h with ⟨parent, name, again, -⟩ | ⟨m, before, again, file, tree⟩
  · cases reached.symm.trans again
  · cases reached.symm.trans again
    have filled : l ≠ [] := by
      rintro rfl
      cases added.free
    obtain ⟨parent, name, rfl⟩ := (List.eq_nil_or_concat' l).resolve_left filled
    refine ⟨?_, added.free, ?_, ?_⟩
    · have there := (fs₁.tree.contains_iff _).mpr ⟨_, file⟩
      have vacant : fs₁.tree.isDirectory (parent ++ [name]) = false := by
        rw [FileTree.isDirectory, file]
        rfl
      rw [tree]
      exact closed.insert parent name _
        (fs₁.tree.isDirectory_of_contains closed parent name there) vacant
    · rw [tree]
      exact Place.locate_of_grows
        (grows_write (fun _ => True) _ _ before content file trivial) p _ added.located
    · intro m
      rw [tree, get?_insert _ _ filled, added.get?]
      split <;> rfl

theorem adds_of_copyFile (source target : Path) (closed : fs.tree.IsClosed)
    (lost : ∀ l, Place.locate fs.tree true target ≠ .ok l)
    (h : fs.copyFile source target = .ok fs') :
    fs'.tree.IsClosed ∧ ∃ l content, fs.content source = .ok content ∧
      fs.tree.Adds target l (.file content) fs'.tree := by
  unfold copyFile at h
  simp only [bind, Except.bind] at h
  split at h
  · cases h
  rename_i k located
  split at h
  · rename_i content found
    have read : fs.content source = .ok content := by
      simp [FileSystem.content, located, found, bind, Except.bind, pure, Except.pure]
    split at h
    · cases h
    rename_i fs₁ emptied
    rcases write_cases target .empty emptied with
      ⟨parent, name, reached, rfl⟩ | ⟨l, -, reached, -⟩
    · obtain ⟨directory, free⟩ := Place.free_of_ofPath target parent name reached
      have closed₁ := isClosed_add closed parent name (.file .empty) directory free
      have located₁ := (Place.locate_iff_ofPath target _).mpr
        (Place.ofPath_of_insert target parent name (.file .empty) rfl reached)
      have added : fs.tree.Adds target (parent ++ [name]) (.file .empty)
          (fs.add parent name (.file .empty)).tree :=
        ⟨free, located₁, get?_insert _ _ (by simp) _⟩
      split at h
      · rename_i still
        cases h
        have elsewhere : k ≠ parent ++ [name] := by
          rintro rfl
          rw [free] at found
          cases found
        rw [added.get?, if_neg elsewhere, found] at still
        cases still
        exact ⟨closed₁, _, _, read, added⟩
      · obtain ⟨closed', again⟩ := adds_of_write_again content closed₁ added h
        exact ⟨closed', _, content, read, again⟩
    · exact absurd ((Place.locate_iff_ofPath target l).mpr reached) (lost l)
  · cases h

end FileSystem
end SimpleFiles
