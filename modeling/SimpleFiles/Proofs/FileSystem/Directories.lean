import SimpleFiles.Proofs.FileSystem.Ending
import SimpleFiles.Proofs.FileSystem.Growth
import SimpleFiles.Proofs.Path.Steps

/-! Making a directory with all the directories above it. The path leads to a directory that is
there and from there only down; what is missing on the way is made, and nothing else changes. -/
namespace SimpleFiles

namespace Path

/-- A path that ends in a dot, slashes aside, leads only to a directory that is there. -/
def EndsInDot (p : Path) : Prop := (p.segments.reverse.dropWhile (· = "")).head? = some "."

instance (p : Path) : Decidable p.EndsInDot :=
  inferInstanceAs (Decidable (_ = some "."))

theorem exists_last_step (segments before : List String) (name : String)
    (h : steps segments = before ++ [name]) :
    ∃ front idle, segments = front ++ name :: idle ∧ (∀ s ∈ idle, isIdle s = true) ∧
      steps front = before := by
  obtain ⟨front, ending, rfl, stepsFront, stepsEnding⟩ := List.filter_eq_append_iff.mp h
  obtain ⟨more, idle, rfl, moreIdle, -, idleRest⟩ := List.filter_eq_cons_iff.mp stepsEnding
  refine ⟨front ++ more, idle, by simp, ?_, ?_⟩
  · intro s hs
    simpa using List.filter_eq_nil_iff.mp idleRest s hs
  · have allIdle : ∀ s ∈ more, isIdle s = true := by
      intro s hs
      simpa using moreIdle s hs
    rw [steps_append, steps_of_idle more allIdle, List.append_nil]
    exact stepsFront

theorem slashes_of_not_endsInDot (front idle : List String)
    (allIdle : ∀ s ∈ idle, isIdle s = true) (h : ¬ EndsInDot ⟨front ++ idle⟩) :
    ∀ s ∈ idle, s = "" := by
  induction idle using List.reverseRecOn with
  | nil => simp
  | append_singleton idle s ih =>
    have last := allIdle s (by simp)
    have empty : s = "" := by
      by_contra filled
      have dot : s = "." := by simpa [isIdle, filled] using last
      exact h (by simp [EndsInDot, dot])
    subst empty
    have shorter : ¬ EndsInDot ⟨front ++ idle⟩ := by
      simpa [EndsInDot] using h
    have earlier := ih (fun x hx => allIdle x (by simp [hx])) shorter
    intro x hx
    rcases List.mem_append.mp hx with hx | hx
    · exact earlier x hx
    · exact List.mem_singleton.mp hx

theorem steps_of_ofStart_endsInDot (first : Option Component) (segments : List String)
    (h : (ofStart first (dropIdleRight segments)).EndsInDot) :
    steps (ofStart first (dropIdleRight segments)).segments = [] := by
  have ends := List.head?_dropWhile_not isIdle segments.reverse
  rw [← List.getLast?_reverse] at ends
  unfold dropIdleRight at h ⊢
  generalize (segments.reverse.dropWhile isIdle).reverse = kept at ends h ⊢
  rcases List.eq_nil_or_concat' kept with rfl | ⟨init, s, rfl⟩
  · cases first with
    | none => rfl
    | some c => cases c <;> rfl
  · have moves : isIdle s = false := by simpa using ends
    have filled : s ≠ "" ∧ s ≠ "." := by simpa [isIdle] using moves
    have last : ∀ front : List String, ¬ EndsInDot ⟨front ++ [s]⟩ := by
      simp [EndsInDot, filled]
    obtain ⟨front, spelled⟩ : ∃ front, ofStart first (init ++ [s]) = ⟨front ++ [s]⟩ := by
      unfold ofStart
      split
      · rename_i nothing
        simp at nothing
      · exact ⟨"" :: init, rfl⟩
      · exact ⟨"." :: init, rfl⟩
      · rename_i nothing
        simp at nothing
      · exact ⟨init, rfl⟩
    rw [spelled] at h
    exact absurd h (last front)

end Path

namespace FileTree

/-- A path leads to a directory that is there and from there down along names that may be
given, to a directory that is there or can be made. -/
structure LeadsDown (t : FileTree) (p : Path) (start : Location) (names : List String) : Prop where
  asked : p = .empty ∨ Place.checkText p = .ok ()
  leads : ∃ before, Path.steps p.segments = before ++ names ∧ t.walkTo? [] before = some start
  directory : t.isDirectory start = true
  legal : ∀ s ∈ names, IsLegalName s
  /-- No entry on the way down is anything but a directory. -/
  roomy : ∀ m, m <+: names → t.contains (start ++ m) = true → t.isDirectory (start ++ m) = true
  ends : p.EndsInDot → t.contains (start ++ names) = true

structure Furnishes (t : FileTree) (l : Location) (u : FileTree) : Prop where
  proper : u.IsProper
  get? : ∀ m, u.get? m = if t.get? m = none ∧ m <+: l then some .directory else t.get? m

namespace Furnishes

variable {t u : FileTree} {l : Location}

theorem refl (proper : t.IsProper) (there : t.contains l = true) : t.Furnishes l t := by
  refine ⟨proper, ?_⟩
  intro m
  split
  · rename_i missing
    have found := t.contains_above proper.closed l m there missing.2
    rw [contains, missing.1] at found
    cases found
  · rfl

theorem get?_of_contains (h : t.Furnishes l u) (m : Location) (there : t.contains m = true) :
    u.get? m = t.get? m := by
  rw [h.get?, if_neg]
  rintro ⟨missing, -⟩
  rw [contains, missing] at there
  cases there

theorem walkTo? (h : t.Furnishes l u) (closed : t.IsClosed) (at_ m : Location)
    (segments : List String) (start : t.contains at_ = true)
    (walked : t.walkTo? at_ segments = some m) : u.walkTo? at_ segments = some m :=
  t.walkTo?_of_kept u closed at_ m segments start walked fun k _ => h.get?_of_contains k

theorem isDirectory_of (h : t.Furnishes l u) (m : Location) (directory : t.isDirectory m = true) :
    u.isDirectory m = true := by
  have found := (t.isDirectory_iff m).mp directory
  rw [isDirectory_iff, h.get?_of_contains m ((t.contains_iff m).mpr ⟨_, found⟩), found]

theorem isDirectory_self (h : t.Furnishes l u)
    (roomy : t.contains l = true → t.isDirectory l = true) : u.isDirectory l = true := by
  cases there : t.contains l with
  | true => exact h.isDirectory_of l (roomy there)
  | false =>
    rw [isDirectory_iff, h.get?, if_pos]
    exact ⟨(t.contains_eq_false_iff l).mp there, List.prefix_refl l⟩

theorem get?_below (h : t.Furnishes l u) (rest : Location) (hr : rest ≠ []) :
    u.get? (l ++ rest) = t.get? (l ++ rest) := by
  rw [h.get?, if_neg]
  rintro ⟨-, within⟩
  have long := within.length_le
  have := List.length_pos_of_ne_nil hr
  rw [List.length_append] at long
  omega

theorem insert (h : t.Furnishes l u) (name : String) (legal : IsLegalName name)
    (directory : u.isDirectory l = true) (free : u.contains (l ++ [name]) = false) :
    t.Furnishes (l ++ [name]) (u.insert (l ++ [name]) .directory) := by
  have vacant : u.isDirectory (l ++ [name]) = false := by
    rw [isDirectory, (u.contains_eq_false_iff _).mp free]
    rfl
  refine ⟨h.proper.insert l name .directory directory legal vacant rfl, ?_⟩
  intro m
  rw [get?_insert u _ (by simp), h.get?]
  simp only [List.prefix_concat_iff]
  by_cases here : m = l ++ [name]
  · have missing : t.get? m = none := by
      have none := (u.contains_eq_false_iff _).mp free
      rw [← here, h.get?] at none
      split at none
      · cases none
      · exact none
    simp [here, here ▸ missing]
  · simp [here]

end Furnishes

end FileTree

namespace Place

open FileTree

theorem walk_cons_of_contains (t : FileTree) (plain : t.HasNoLinks) (follow : Bool) (links : Nat)
    (at_ : Location) (s : String) (rest : List String) (directory : t.isDirectory at_ = true)
    (moves : Path.isIdle s = false) (notUp : s ≠ "..") (short : s.utf8ByteSize ≤ maxNameSize)
    (there : t.contains (at_ ++ [s]) = true) :
    walk t follow links at_ (s :: rest) = walk t follow links (at_ ++ [s]) rest := by
  obtain ⟨n, hn⟩ := (t.contains_iff _).mp there
  rw [walk_cons, directory, moves, if_neg notUp, if_neg (Nat.not_lt_of_le short), hn]
  cases n with
  | link target => exact absurd hn (plain.get?_ne_link _ target)
  | file content => rfl
  | directory => rfl

theorem locate_below {t : FileTree} (proper : t.IsProper) (root : Path) (base names : Location)
    (reached : t.walkTo? [] root.folder = some base) (filled : names ≠ [])
    (asked : checkText (root.below names) = .ok ()) (there : t.contains (base ++ names) = true) :
    locate t true (root.below names) = .ok (base ++ names) := by
  have legal : ∀ s ∈ names, IsLegalName s := fun s hs =>
    proper.legal_of_contains _ there s (List.mem_append_right _ hs)
  rw [locate_eq_ok_iff t proper.noLinks, asked, root.below_eq names filled fun s hs => (legal s hs).1,
    walkTo?_append, reached, Option.bind_some]
  exact ⟨rfl, t.walkTo?_names base names legal proper.closed there⟩

theorem walk_append (t : FileTree) (plain : t.HasNoLinks) (follow : Bool) (links : Nat)
    (at_ l : Location) (first rest : List String) (h : t.walkTo? at_ first = some l) :
    walk t follow links at_ (first ++ rest) = walk t follow links l rest := by
  induction first generalizing at_ with
  | nil => rw [← Option.some.inj h, List.nil_append]
  | cons s first ih =>
    have here := t.isDirectory_of_walkTo?_cons at_ l s first h
    rw [List.cons_append]
    simp only [walkTo?, here, Bool.not_true, Bool.false_eq_true, if_false] at h
    split at h
    · rename_i idle
      rw [walk_cons, here, if_pos idle]
      exact ih at_ h
    rename_i moves
    rw [Bool.not_eq_true] at moves
    split at h
    · rename_i up
      rw [walk_cons, here, moves, if_pos up]
      exact ih _ h
    rename_i notUp
    split at h
    · cases h
    rename_i short
    split at h
    · rename_i there
      rw [walk_cons_of_contains t plain follow links at_ s _ here moves notUp
        (Nat.le_of_not_lt short) there]
      exact ih _ h
    · cases h

/-- Where nothing but a directory is in the way, names that lead to a missing entry end at the
first one that is missing. -/
theorem walk_of_missing_below (t : FileTree) (plain : t.HasNoLinks) (follow : Bool) (links : Nat)
    (segments : List String) (at_ : Location) (directory : t.isDirectory at_ = true)
    (legal : ∀ s ∈ Path.steps segments, IsLegalName s)
    (roomy : ∀ m, m <+: Path.steps segments → t.contains (at_ ++ m) = true →
      t.isDirectory (at_ ++ m) = true)
    (missing : t.contains (at_ ++ Path.steps segments) = false) :
    (∃ parent name, walk t follow links at_ segments = .ok (.free parent name)) ∨
      walk t follow links at_ segments = .error .noEntry := by
  induction segments generalizing at_ with
  | nil =>
    rw [Path.steps, List.filter_nil, List.append_nil, contains,
      (t.isDirectory_iff at_).mp directory] at missing
    cases missing
  | cons s rest ih =>
    by_cases idle : Path.isIdle s = true
    · have dropped : Path.steps (s :: rest) = Path.steps rest := by simp [Path.steps, idle]
      rw [dropped] at legal roomy missing
      rw [walk_cons, directory, if_pos idle]
      exact ih at_ directory legal roomy missing
    · have kept : Path.steps (s :: rest) = s :: Path.steps rest := by simp [Path.steps, idle]
      have moves : Path.isIdle s = false := by simpa using idle
      rw [kept] at legal roomy missing
      obtain ⟨entryName, short⟩ := legal s (List.mem_cons_self ..)
      cases hn : t.get? (at_ ++ [s]) with
      | none =>
        rw [walk_cons, directory, moves, if_neg entryName.notParent,
          if_neg (Nat.not_lt_of_le short), hn]
        simp only [Bool.not_true, Bool.false_eq_true, if_false]
        split
        · exact .inl ⟨at_, s, rfl⟩
        · exact .inr rfl
      | some n =>
        have there : t.contains (at_ ++ [s]) = true := (t.contains_iff _).mpr ⟨n, hn⟩
        rw [walk_cons_of_contains t plain follow links at_ s rest directory moves
          entryName.notParent short there]
        refine ih (at_ ++ [s]) (roomy [s] (by simp) there)
          (fun x hx => legal x (List.mem_cons_of_mem _ hx)) ?_ (by simpa using missing)
        intro m hm found
        have longer := roomy (s :: m) (by simpa using hm)
        rw [List.append_cons] at longer
        exact longer found

theorem walk_of_missing (t : FileTree) (plain : t.HasNoLinks) (follow : Bool) (links : Nat)
    (segments : List String) (at_ start : Location) (before names : List String)
    (steps : Path.steps segments = before ++ names) (leads : t.walkTo? at_ before = some start)
    (directory : t.isDirectory start = true) (legal : ∀ s ∈ names, IsLegalName s)
    (roomy : ∀ m, m <+: names → t.contains (start ++ m) = true → t.isDirectory (start ++ m) = true)
    (missing : t.contains (start ++ names) = false) :
    (∃ parent name, walk t follow links at_ segments = .ok (.free parent name)) ∨
      walk t follow links at_ segments = .error .noEntry := by
  obtain ⟨first, rest, rfl, rfl, rfl⟩ := List.filter_eq_append_iff.mp steps
  have walked := t.walkTo?_of_steps at_ start first leads directory
  rw [walk_append t plain follow links at_ start first rest walked]
  exact walk_of_missing_below t plain follow links rest start directory legal roomy missing

end Place

namespace FileTree.LeadsDown

variable {t : FileTree} {p : Path} {start : Location} {names : List String}

theorem walkTo? (down : t.LeadsDown p start names) (closed : t.IsClosed)
    (there : t.contains (start ++ names) = true) :
    t.walkTo? [] p.segments = some (start ++ names) := by
  obtain ⟨before, steps, leads⟩ := down.leads
  refine t.walkTo?_of_steps [] _ p.segments ?_ (down.roomy names (List.prefix_refl _) there)
  rw [steps, walkTo?_append, leads]
  exact t.walkTo?_names start names down.legal closed there

theorem isDirectory_above (down : t.LeadsDown p start names) (closed : t.IsClosed) (l : Location)
    (above : l <+: start ++ names) (there : t.contains l = true) : t.isDirectory l = true := by
  rcases List.prefix_or_prefix_of_prefix above (List.prefix_append start names) with up | beyond
  · obtain ⟨rest, rfl⟩ := up
    cases rest with
    | nil => simpa using down.directory
    | cons s rest =>
      have found := (t.isDirectory_iff _).mp down.directory
      refine t.isDirectory_of_contains closed l s (t.contains_above closed _ _
        ((t.contains_iff _).mpr ⟨_, found⟩) ?_)
      simp
  · obtain ⟨m, rfl⟩ := beyond
    exact down.roomy m ((List.prefix_append_right_inj start).mp above) there

theorem walkTo?_of_furnishes {u : FileTree} (down : t.LeadsDown p start names)
    (closed : t.IsClosed) (furnished : t.Furnishes (start ++ names) u) :
    u.walkTo? [] p.folder = some (start ++ names) := by
  obtain ⟨before, steps, leads⟩ := down.leads
  have directory := furnished.isDirectory_self (down.roomy names (List.prefix_refl _))
  have found := (u.isDirectory_iff _).mp directory
  refine u.walkTo?_of_steps [] _ p.folder ?_ directory
  rw [Path.steps_folder, steps, walkTo?_append, furnished.walkTo? closed [] start before rfl leads]
  exact u.walkTo?_names start names down.legal furnished.proper.closed
    ((u.contains_iff _).mpr ⟨_, found⟩)

theorem exists_name (down : t.LeadsDown p start names)
    (missing : t.contains (start ++ names) = false) :
    ∃ init name front slashes, names = init ++ [name] ∧
      p.segments = front ++ name :: slashes ∧ (∀ s ∈ slashes, s = "") ∧
      ∃ before, Path.steps front = before ++ init ∧ t.walkTo? [] before = some start := by
  obtain ⟨before, steps, leads⟩ := down.leads
  rcases List.eq_nil_or_concat' names with rfl | ⟨init, name, rfl⟩
  · rw [List.append_nil, contains, (t.isDirectory_iff start).mp down.directory] at missing
    cases missing
  · rw [← List.append_assoc] at steps
    obtain ⟨front, idle, split, allIdle, stepsFront⟩ := Path.exists_last_step _ _ _ steps
    refine ⟨init, name, front, idle, rfl, split, ?_, before, stepsFront, leads⟩
    apply Path.slashes_of_not_endsInDot (front ++ [name]) idle allIdle
    have spelled : p = ⟨front ++ [name] ++ idle⟩ := by simp [← split]
    intro dot
    have there := down.ends (spelled ▸ dot)
    rw [missing] at there
    cases there

theorem parent (down : t.LeadsDown p start names) (init : List String) (name : String)
    (front slashes : List String) (hn : names = init ++ [name])
    (split : p = ⟨front ++ name :: slashes⟩) (allEmpty : ∀ s ∈ slashes, s = "")
    (before : List String) (steps : Path.steps front = before ++ init)
    (leads : t.walkTo? [] before = some start) (asked : Place.checkText p = .ok ()) :
    ∃ q, p.parent? = some q ∧ t.LeadsDown q start init := by
  subst split hn
  obtain ⟨entryName, -⟩ := down.legal name (by simp)
  have allIdle : ∀ s ∈ slashes, Path.isIdle s = true := by
    intro s hs
    rw [allEmpty s hs]
    rfl
  have found := Path.parent?_named front slashes name entryName allIdle
  have stepsParent := Path.steps_of_parent? front slashes name entryName allIdle _ found
  refine ⟨_, found, ?_⟩
  refine ⟨Path.checkText_parent? front slashes name entryName allIdle _ found asked,
    ⟨before, stepsParent.trans steps, leads⟩, down.directory,
    fun s hs => down.legal s (by simp [hs]), ?_, ?_⟩
  · exact fun m hm => down.roomy m (hm.trans (List.prefix_append _ _))
  · intro dot
    have none := Path.steps_of_ofStart_endsInDot _ _ dot
    rw [stepsParent, steps] at none
    obtain ⟨rfl, rfl⟩ := List.append_eq_nil_iff.mp none
    rw [List.append_nil, contains, (t.isDirectory_iff start).mp down.directory]
    rfl

end FileTree.LeadsDown

namespace FileSystem

open FileTree

theorem pathExists_below_iff {fs : FileSystem} (proper : fs.tree.IsProper) (root : Path)
    (base names : Location) (reached : fs.tree.walkTo? [] root.folder = some base)
    (filled : names ≠ []) (there : fs.tree.contains (base ++ names) = true) :
    fs.pathExists (root.below names) = true ↔ Place.checkText (root.below names) = .ok () := by
  constructor
  · intro found
    obtain ⟨l, located⟩ := fs.exists_locate_of_pathExists _ found
    exact ((Place.locate_eq_ok_iff fs.tree proper.noLinks true _ l).mp located).1
  · intro asked
    exact fs.pathExists_of_locate _ _
      (Place.locate_below proper root base names reached filled asked there)

variable {fs : FileSystem} {p : Path}

theorem createDirectory_of_there (l : Location) (h : Place.locate fs.tree true p = .ok l) :
    fs.createDirectory p = .error .entryExists := by
  obtain ⟨found, ends, there⟩ := LastName.exists_of_locate h
  unfold createDirectory
  rw [ends]
  cases found with
  | none => rfl
  | some last => simp [bind, Except.bind, there last rfl, throw, throwThe, MonadExceptOf.throw]

theorem createAll_of_isDirectory (fs : FileSystem) (p : Path) (h : fs.isDirectory p = true) :
    fs.createAll p = (fs, .ok ()) := by
  obtain ⟨l, located, -⟩ := fs.exists_locate_of_isDirectory p h
  rw [createAll, createAllUpTo, createDirectory_of_there l located, h]
  split <;> rfl

section
variable (proper : fs.tree.IsProper) (start : Location) (init : List String) (name : String)
  (front slashes : List String) (asked : Place.checkText ⟨front ++ name :: slashes⟩ = .ok ())
  (allEmpty : ∀ s ∈ slashes, s = "") (before : List String)
  (steps : Path.steps front = before ++ init) (leads : fs.tree.walkTo? [] before = some start)
  (legal : ∀ s ∈ init ++ [name], IsLegalName s)

include proper asked allEmpty steps leads legal in
theorem createDirectory_in_directory (directory : fs.tree.isDirectory (start ++ init) = true)
    (free : fs.tree.contains (start ++ init ++ [name]) = false) :
    ∃ fs', fs.createDirectory ⟨front ++ name :: slashes⟩ = .ok fs' ∧
      fs'.tree = fs.tree.insert (start ++ init ++ [name]) .directory := by
  have there : fs.tree.contains (start ++ init) = true := by
    rw [contains, (fs.tree.isDirectory_iff _).mp directory]
    rfl
  have walked : fs.tree.walkTo? [] front = some (start ++ init) := by
    refine fs.tree.walkTo?_of_steps [] _ front ?_ directory
    rw [steps, walkTo?_append, leads]
    exact fs.tree.walkTo?_names start init (fun s hs => legal s (by simp [hs])) proper.closed there
  have reached := (Place.walk_eq_ok_iff fs.tree proper.noLinks true Place.maxLinks [] _ front).mpr
    walked
  obtain ⟨entryName, short⟩ := legal name (by simp)
  unfold createDirectory
  rw [LastName.ofPath_named fs.tree front slashes name entryName allEmpty asked, reached]
  simp only [directory, Nat.not_lt_of_le short, Bool.not_true, Bool.false_eq_true, if_false, bind,
    Except.bind, LastName.location, free]
  exact ⟨_, rfl, rfl⟩

include proper asked allEmpty steps leads legal in
theorem createDirectory_in_missing (directory : fs.tree.isDirectory start = true)
    (roomy : ∀ m, m <+: init → fs.tree.contains (start ++ m) = true →
      fs.tree.isDirectory (start ++ m) = true)
    (missing : fs.tree.contains (start ++ init) = false) :
    fs.createDirectory ⟨front ++ name :: slashes⟩ = .error .noEntry := by
  obtain ⟨entryName, -⟩ := legal name (by simp)
  unfold createDirectory
  rw [LastName.ofPath_named fs.tree front slashes name entryName allEmpty asked]
  rcases Place.walk_of_missing fs.tree proper.noLinks true Place.maxLinks front [] start before
    init steps leads directory (fun s hs => legal s (by simp [hs])) roomy missing with
    ⟨parent, last, free⟩ | lost
  · rw [free]
    rfl
  · rw [lost]
    rfl

end

theorem createDirectory_of_furnishes {t : FileTree} {start : Location} {init : List String}
    {name : String} (furnished : t.Furnishes (start ++ init) fs.tree) (closed : t.IsClosed)
    (down : t.LeadsDown p start (init ++ [name])) (front slashes : List String)
    (split : p = ⟨front ++ name :: slashes⟩) (allEmpty : ∀ s ∈ slashes, s = "")
    (before : List String) (steps : Path.steps front = before ++ init)
    (leads : t.walkTo? [] before = some start) (asked : Place.checkText p = .ok ())
    (missing : t.contains (start ++ (init ++ [name])) = false) :
    ∃ fs', fs.createDirectory p = .ok fs' ∧
      t.Furnishes (start ++ (init ++ [name])) fs'.tree := by
  subst split
  have directory := furnished.isDirectory_self (down.roomy init (List.prefix_append _ _))
  have free : fs.tree.contains (start ++ init ++ [name]) = false := by
    rw [contains, furnished.get?_below [name] (by simp), List.append_assoc]
    exact missing
  obtain ⟨fs', made, tree⟩ := createDirectory_in_directory furnished.proper start init name front
    slashes asked allEmpty before steps (furnished.walkTo? closed [] start before rfl leads)
    down.legal directory free
  refine ⟨fs', made, ?_⟩
  rw [tree, ← List.append_assoc]
  exact furnished.insert name (down.legal name (by simp)) directory free

theorem createAllUpTo_of_leadsDown (depth : Nat) (fs : FileSystem) (p : Path)
    (proper : fs.tree.IsProper) (start : Location) (names : List String)
    (down : fs.tree.LeadsDown p start names) (enough : names.length < depth) :
    ∃ fs', createAllUpTo depth fs p = (fs', .ok ()) ∧
      fs.tree.Furnishes (start ++ names) fs'.tree := by
  induction depth generalizing p names with
  | zero => exact absurd enough (Nat.not_lt_zero _)
  | succ depth ih =>
    rw [createAllUpTo]
    by_cases empty : p = .empty
    · rw [if_pos empty]
      subst empty
      obtain ⟨before, steps, -⟩ := down.leads
      obtain ⟨-, rfl⟩ := List.append_eq_nil_iff.mp steps.symm
      refine ⟨fs, rfl, .refl proper ?_⟩
      rw [List.append_nil, contains, (fs.tree.isDirectory_iff start).mp down.directory]
      rfl
    rw [if_neg empty]
    have asked := down.asked.resolve_left empty
    cases there : fs.tree.contains (start ++ names) with
    | true =>
      have located := (Place.locate_eq_ok_iff fs.tree proper.noLinks true p _).mpr
        ⟨asked, down.walkTo? proper.closed there⟩
      rw [createDirectory_of_there _ located]
      simp only [fs.isDirectory_of_locate p _ located,
        down.roomy names (List.prefix_refl _) there, if_true]
      exact ⟨fs, rfl, .refl proper there⟩
    | false =>
      obtain ⟨init, name, front, slashes, rfl, segments, allEmpty, before, steps, leads⟩ :=
        down.exists_name there
      have split : p = ⟨front ++ name :: slashes⟩ := by rw [← segments]
      cases above : fs.tree.contains (start ++ init) with
      | true =>
        obtain ⟨fs', made, furnished⟩ := createDirectory_of_furnishes (.refl proper above)
          proper.closed down front slashes split allEmpty before steps leads asked there
        rw [made]
        exact ⟨fs', rfl, furnished⟩
      | false =>
        obtain ⟨parent, found, downParent⟩ := down.parent init name front slashes rfl split
          allEmpty before steps leads asked
        obtain ⟨fs₁, madeAbove, furnishedAbove⟩ := ih parent init downParent
          (by simpa using enough)
        obtain ⟨fs', made, furnished⟩ := createDirectory_of_furnishes furnishedAbove
          proper.closed down front slashes split allEmpty before steps leads asked there
        have lost : fs.createDirectory p = .error .noEntry := by
          rw [split] at asked ⊢
          exact createDirectory_in_missing proper start init name front slashes asked allEmpty
            before steps leads down.legal down.directory
            (fun m hm => down.roomy m (hm.trans (List.prefix_append _ _))) above
        rw [lost]
        simp only [found, madeAbove, made]
        exact ⟨fs', rfl, furnished⟩

theorem createAll_of_leadsDown (fs : FileSystem) (p : Path) (proper : fs.tree.IsProper)
    (start : Location) (names : List String) (down : fs.tree.LeadsDown p start names) :
    ∃ fs', fs.createAll p = (fs', .ok ()) ∧ fs.tree.Furnishes (start ++ names) fs'.tree := by
  apply createAllUpTo_of_leadsDown (p.depth + 1) fs p proper start names down
  obtain ⟨before, steps, -⟩ := down.leads
  have count := List.length_filterMap_le Path.Component.step? p.components
  rw [← Path.steps_eq_components, steps, List.length_append] at count
  exact Nat.lt_succ_of_le (Nat.le_trans (Nat.le_add_left _ _) count)

theorem exists_furnished (fs : FileSystem) (p : Path) (proper : fs.tree.IsProper)
    (start : Location) (names : List String) (down : fs.tree.LeadsDown p start names) :
    ∃ u, fs.tree.Furnishes (start ++ names) u ∧ u.walkTo? [] p.folder = some (start ++ names) ∧
      u.isDirectory (start ++ names) = true := by
  obtain ⟨fs₁, -, furnished⟩ := fs.createAll_of_leadsDown p proper start names down
  exact ⟨fs₁.tree, furnished, down.walkTo?_of_furnishes proper.closed furnished,
    furnished.isDirectory_self (down.roomy names (List.prefix_refl _))⟩

end FileSystem

end SimpleFiles
