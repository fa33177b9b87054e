import SimpleFiles.Proofs.FileSystem
import SimpleFiles.Proofs.Path

/-! The segments of a path that lead somewhere. They decide where a path leads, and they are
what two spellings of one path, a path and its parent, or a directory and what lies below it
have in common. -/
namespace SimpleFiles

namespace Path

def steps (segments : List String) : List String := segments.filter fun s => !isIdle s

@[simp] theorem steps_append (first rest : List String) :
    steps (first ++ rest) = steps first ++ steps rest := List.filter_append ..

theorem steps_of_idle (idle : List String) (allIdle : ∀ s ∈ idle, isIdle s = true) :
    steps idle = [] := by
  simpa [steps] using allIdle

theorem steps_of_named (names : List String) (named : ∀ s ∈ names, IsEntryName s) :
    steps names = names := by
  rw [steps, List.filter_eq_self]
  intro s hs
  simp [isIdle_of_isEntryName s (named s hs)]

theorem steps_folder (p : Path) : steps p.folder = steps p.segments := by
  rcases p.segments_eq_folder with same | trailing
  · rw [← same]
  · rw [trailing, steps_append, steps_of_idle [""] (by decide), List.append_nil]

theorem steps_trimmedFront (front : List String) : steps (trimmedFront front) = steps front := by
  obtain ⟨idle, split, allIdle⟩ := trimmedFront_append front
  conv => rhs; rw [split, steps_append, steps_of_idle idle allIdle, List.append_nil]

theorem steps_of_parent? (front idle : List String) (name : String) (h : IsEntryName name)
    (allIdle : ∀ s ∈ idle, isIdle s = true) (parent : Path)
    (hp : parent? ⟨front ++ name :: idle⟩ = some parent) :
    steps parent.segments = steps front := by
  rw [parent?_named front idle name h allIdle, Option.some.injEq] at hp
  rw [← steps_folder, ← hp, folder_ofStart, steps_trimmedFront]

def Component.step? : Component → Option String
  | .normal name => some name
  | .parent => some ".."
  | .root | .current => none

theorem steps_eq_filterMap (segments : List String) :
    steps segments = (segments.filterMap component?).filterMap Component.step? := by
  rw [List.filterMap_filterMap, steps, ← List.filterMap_eq_filter]
  congr 1
  funext s
  unfold component?
  by_cases idle : isIdle s = true
  · simp [idle]
  · by_cases up : s = ".."
    · subst up
      rfl
    · simp [idle, up, Component.step?]

theorem steps_eq_components (p : Path) :
    steps p.segments = p.components.filterMap Component.step? := by
  rw [components, List.filterMap_append, ← steps_eq_filterMap]
  unfold start
  split
  · rename_i first rest split
    rw [split]
    rfl
  · rename_i rest split
    rw [split]
    rfl
  · rfl

theorem steps_eq_of_same (p q : Path) (h : p.same q = true) :
    steps p.segments = steps q.segments := by
  rw [steps_eq_components, steps_eq_components, eq_of_beq h]

theorem text_cons (s s' : String) (rest : List String) :
    text ⟨s :: s' :: rest⟩ = s ++ "/" ++ text ⟨s' :: rest⟩ := String.intercalate_cons_cons

theorem text_eq_empty_iff (p : Path) : p.text = "" ↔ p.segments = [] ∨ p.segments = [""] := by
  obtain ⟨segments⟩ := p
  match segments with
  | [] => simp [text]
  | [s] => simp [text]
  | s :: s' :: rest => simp [text_cons, String.append_eq_empty_iff]

theorem size_text_append (first rest : List String) (hf : first ≠ []) (hr : rest ≠ []) :
    (text ⟨first ++ rest⟩).utf8ByteSize =
      (text ⟨first⟩).utf8ByteSize + 1 + (text ⟨rest⟩).utf8ByteSize := by
  obtain ⟨r, more, rfl⟩ := List.exists_cons_of_ne_nil hr
  induction first with
  | nil => exact absurd rfl hf
  | cons s first ih =>
    have slash : "/".utf8ByteSize = 1 := rfl
    cases first with
    | nil =>
      rw [List.singleton_append, text_cons, String.utf8ByteSize_append,
        String.utf8ByteSize_append, slash]
      simp [text]
    | cons s' first =>
      have later := ih (List.cons_ne_nil _ _)
      rw [List.cons_append, List.cons_append, text_cons, text_cons, ← List.cons_append]
      simp only [String.utf8ByteSize_append, later]
      omega

theorem size_text_le (first rest : List String) :
    (text ⟨first⟩).utf8ByteSize ≤ (text ⟨first ++ rest⟩).utf8ByteSize := by
  by_cases hf : first = []
  · subst hf
    exact Nat.zero_le _
  · by_cases hr : rest = []
    · simp [hr]
    · rw [size_text_append first rest hf hr]
      omega

theorem checkText_of_size_le (p q : Path) (h : Place.checkText p = .ok ())
    (kept : ∀ s ∈ q.segments, s = "" ∨ s ∈ p.segments) (filled : q.text ≠ "")
    (size : q.text.utf8ByteSize ≤ p.text.utf8ByteSize) : Place.checkText q = .ok () := by
  obtain ⟨noZero, -, short⟩ := (Place.checkText_eq_ok_iff p).mp h
  refine (Place.checkText_eq_ok_iff q).mpr ⟨?_, filled, Nat.lt_of_le_of_lt size short⟩
  intro zero
  obtain ⟨s, hs, inside⟩ := (mem_text_iff q _ (by decide)).mp zero
  rcases kept s hs with rfl | hs
  · cases inside
  · exact noZero ((mem_text_iff p _ (by decide)).mpr ⟨s, hs, inside⟩)

theorem ofStart_segments_ne_nil (first : Option Component) (segments : List String) :
    (ofStart first segments).segments ≠ [] := by
  unfold ofStart
  split <;> simp_all [empty]

theorem checkText_parent? (front idle : List String) (name : String) (h : IsEntryName name)
    (allIdle : ∀ s ∈ idle, isIdle s = true) (parent : Path)
    (hp : parent? ⟨front ++ name :: idle⟩ = some parent)
    (asked : Place.checkText ⟨front ++ name :: idle⟩ = .ok ()) :
    parent = .empty ∨ Place.checkText parent = .ok () := by
  rw [parent?_named front idle name h allIdle, Option.some.injEq] at hp
  obtain ⟨more, split, -⟩ := trimmedFront_append front
  have folder := folder_ofStart front
  have filled := ofStart_segments_ne_nil (lead front).1 (dropIdleRight (lead front).2)
  rw [hp] at folder filled
  rw [split, List.append_assoc] at asked
  by_cases none : parent.text = ""
  · have empty := ((text_eq_empty_iff parent).mp none).resolve_left filled
    exact .inl (by rw [Path.empty, ← empty])
  · refine .inr (checkText_of_size_le _ parent asked ?_ none ?_)
    · intro s hs
      rcases parent.segments_eq_folder with same | trailing
      · rw [same, folder] at hs
        exact .inr (List.mem_append_left _ hs)
      · rw [trailing, folder, List.mem_append, List.mem_singleton] at hs
        exact hs.symm.imp_right (List.mem_append_left _)
    · obtain ⟨segments⟩ := parent
      rcases segments_eq_folder ⟨segments⟩ with same | trailing
      · rw [show segments = trimmedFront front from same.trans folder]
        exact size_text_le _ _
      · rw [show segments = trimmedFront front ++ [""] from folder ▸ trailing] at none ⊢
        by_cases nothing : trimmedFront front = []
        · rw [nothing] at none
          exact absurd rfl none
        · rw [size_text_append _ [""] nothing (by simp),
            size_text_append _ (more ++ name :: idle) nothing (by simp)]
          simp [text]

theorem start_eq_lead (segments : List String) (h : segments ≠ [""]) :
    start ⟨segments⟩ = lead segments := by
  cases segments with
  | nil => rfl
  | cons s rest =>
    rcases segment_cases s with rfl | rfl | moves
    · cases rest with
      | nil => exact absurd rfl h
      | cons s' rest => rfl
    · rfl
    · rw [start_cons_of_moving moves, lead_of_moving moves]

theorem components_eq_ancestors (p : Path) : p.components = ancestors p.folder := by
  by_cases h : p.text = ""
  · obtain ⟨segments⟩ := p
    rcases (text_eq_empty_iff ⟨segments⟩).mp h with rfl | rfl <;> rfl
  have filled := p.folder_ne_nil h
  obtain ⟨segments⟩ := p
  rcases segments_eq_folder ⟨segments⟩ with same | trailing
  · have notEmpty : segments ≠ [""] := by
      rintro rfl
      exact h rfl
    rw [components, start_eq_lead segments notEmpty, ← same, ancestors]
  · have spelled : segments = folder ⟨segments⟩ ++ [""] := trailing
    have notEmpty : folder ⟨segments⟩ ++ [""] ≠ [""] := by simp [filled]
    conv => lhs; rw [spelled]
    rw [components, start_eq_lead _ notEmpty, lead_append _ _ filled, List.filterMap_append,
      filterMap_idle [""] (by decide), List.append_nil, ancestors]

theorem exists_component (s : String) (h : isIdle s = false) : ∃ c, component? s = some c := by
  by_cases up : s = ".."
  · exact ⟨.parent, by rw [component?, h, if_pos up]; rfl⟩
  · exact ⟨.normal s, by simp [component?, h, up]⟩

theorem dropIdle_dropComponents (segments rest : List String) :
    dropIdle (dropComponents (segments.filterMap component?).length (segments ++ rest)) =
      dropIdle rest := by
  induction segments with
  | nil => simp [dropComponents]
  | cons s segments ih =>
    by_cases idle : isIdle s = true
    · rw [List.filterMap_cons, component?_of_isIdle s idle]
      simp only
      cases hk : (segments.filterMap component?).length with
      | zero =>
        rw [hk] at ih
        simpa [dropComponents, dropIdle, idle] using ih
      | succ k =>
        rw [hk] at ih
        simpa [dropComponents, idle] using ih
    · obtain ⟨c, hc⟩ := exists_component s (by simpa using idle)
      rw [List.filterMap_cons, hc]
      simpa [dropComponents, idle] using ih

theorem ancestors_ne_nil (front : List String) (h : front ≠ []) : ancestors front ≠ [] := by
  obtain ⟨s, rest, rfl⟩ := List.exists_cons_of_ne_nil h
  rcases segment_cases s with rfl | rfl | moves
  · exact List.cons_ne_nil _ _
  · exact List.cons_ne_nil _ _
  · obtain ⟨c, hc⟩ := exists_component s moves
    simp [ancestors, lead_of_moving moves, hc]

theorem relativeTo?_of_moving (base : Path) (rest : List String) (s : String)
    (filled : base.text ≠ "") (moves : isIdle s = false) :
    relativeTo? ⟨base.folder ++ s :: rest⟩ base =
      some (ofStart none (dropIdleRight (dropIdle (s :: rest)))) := by
  have count : (ancestors base.folder).length - (lead base.folder).1.toList.length =
      ((lead base.folder).2.filterMap component?).length := by
    rw [ancestors, List.length_append, Nat.add_sub_cancel_left]
  rw [relativeTo?, base.components_eq_ancestors, components_of_moving _ rest s moves,
    start_of_moving _ rest s moves]
  simp only [List.isPrefixOf_iff_prefix, List.prefix_append, if_true, count,
    dropIdle_dropComponents, List.length_eq_zero_iff,
    ancestors_ne_nil _ (base.folder_ne_nil filled), if_false]

theorem relativeTo?_below (root : Path) (names : List String) (filled : root.text ≠ "")
    (hn : names ≠ []) (named : ∀ s ∈ names, IsEntryName s) :
    (root.below names).relativeTo? root = some ⟨names⟩ := by
  obtain ⟨s, rest, rfl⟩ := List.exists_cons_of_ne_nil hn
  have moves := isIdle_of_isEntryName s (named s (List.mem_cons_self ..))
  have kept : dropIdle (s :: rest) = s :: rest := by simp [dropIdle, moves]
  have keptRight : dropIdleRight (s :: rest) = s :: rest := by
    obtain ⟨init, last, spelled⟩ := (List.eq_nil_or_concat' (s :: rest)).resolve_left hn
    rw [spelled]
    exact dropIdleRight_named init [] last (named last (by simp [spelled])) (by simp)
  rw [root.below_eq _ hn named, root.relativeTo?_of_moving rest s filled moves, kept, keptRight]
  rfl

end Path

namespace FileTree

variable (t : FileTree) (at_ l : Location) (segments : List String)

theorem walkTo?_cons_mono (s : String) (rest rest' : List String)
    (later : ∀ m, t.walkTo? m rest = some l → t.walkTo? m rest' = some l)
    (h : t.walkTo? at_ (s :: rest) = some l) : t.walkTo? at_ (s :: rest') = some l := by
  rw [walkTo?] at h ⊢
  split at h
  · cases h
  rename_i directory
  rw [if_neg directory]
  split at h
  · rename_i idle
    rw [if_pos idle]
    exact later _ h
  rename_i idle
  rw [if_neg idle]
  split at h
  · rename_i up
    rw [if_pos up]
    exact later _ h
  rename_i up
  rw [if_neg up]
  split at h
  · cases h
  rename_i short
  rw [if_neg short]
  split at h
  · rename_i there
    rw [if_pos there]
    exact later _ h
  · cases h

theorem isDirectory_of_walkTo?_cons (s : String) (rest : List String)
    (h : t.walkTo? at_ (s :: rest) = some l) : t.isDirectory at_ = true := by
  rw [walkTo?] at h
  split at h
  · cases h
  · rename_i directory
    simpa using directory

theorem isDirectory_of_walkTo? (h : t.walkTo? at_ segments = some l)
    (directory : t.isDirectory l = true) : t.isDirectory at_ = true := by
  cases segments with
  | nil => rwa [Option.some.inj h]
  | cons s rest => exact t.isDirectory_of_walkTo?_cons at_ l s rest h

theorem walkTo?_cons_idle (s : String) (rest : List String) (idle : Path.isIdle s = true)
    (directory : t.isDirectory at_ = true) : t.walkTo? at_ (s :: rest) = t.walkTo? at_ rest := by
  simp [walkTo?, directory, idle]

theorem walkTo?_steps (h : t.walkTo? at_ segments = some l) :
    t.walkTo? at_ (Path.steps segments) = some l := by
  induction segments generalizing at_ with
  | nil => exact h
  | cons s rest ih =>
    by_cases idle : Path.isIdle s = true
    · have directory := t.isDirectory_of_walkTo?_cons at_ l s rest h
      rw [t.walkTo?_cons_idle at_ s rest idle directory] at h
      simpa [Path.steps, idle] using ih at_ h
    · have kept : Path.steps (s :: rest) = s :: Path.steps rest := by simp [Path.steps, idle]
      rw [kept]
      exact t.walkTo?_cons_mono at_ l s rest _ ih h

theorem walkTo?_of_steps (h : t.walkTo? at_ (Path.steps segments) = some l)
    (directory : t.isDirectory l = true) : t.walkTo? at_ segments = some l := by
  induction segments generalizing at_ with
  | nil => exact h
  | cons s rest ih =>
    by_cases idle : Path.isIdle s = true
    · have dropped : Path.steps (s :: rest) = Path.steps rest := by simp [Path.steps, idle]
      rw [dropped] at h
      rw [t.walkTo?_cons_idle at_ s rest idle (t.isDirectory_of_walkTo? at_ l _ h directory)]
      exact ih at_ h
    · have kept : Path.steps (s :: rest) = s :: Path.steps rest := by simp [Path.steps, idle]
      rw [kept] at h
      exact t.walkTo?_cons_mono at_ l s _ rest ih h

theorem eq_append_of_walkTo? (names : List String) (named : ∀ s ∈ names, IsEntryName s)
    (start : t.contains at_ = true) (h : t.walkTo? at_ names = some l) :
    l = at_ ++ names ∧ t.contains l = true := by
  induction names generalizing at_ with
  | nil =>
    rw [← Option.some.inj h]
    exact ⟨(List.append_nil at_).symm, start⟩
  | cons s rest ih =>
    have here := named s (List.mem_cons_self ..)
    rw [walkTo?, Path.isIdle_of_isEntryName s here, if_neg here.notParent] at h
    split at h
    · cases h
    simp only [Bool.false_eq_true, if_false] at h
    split at h
    · cases h
    split at h
    · rename_i there
      obtain ⟨same, found⟩ := ih (at_ ++ [s]) (fun x hx => named x (List.mem_cons_of_mem _ hx))
        there h
      exact ⟨by simpa using same, found⟩
    · cases h

end FileTree

theorem Path.mem_stations_folder (p : Path) (l : Location) :
    l ∈ FileTree.stations [] p.folder ↔ l ∈ FileTree.stations [] p.segments := by
  rcases p.segments_eq_folder with same | trailing
  · rw [← same]
  · rw [trailing, FileTree.stations_append_idle [] p.folder "" rfl]

end SimpleFiles
