import Mathlib.Data.List.Basic
import SimpleFiles.Path
import SimpleFiles.Proofs.FileName

/-! Paths of entries below a directory: the segments of the directory, then the names
that lead to the entry. The last of them can be told and replaced. -/
namespace SimpleFiles.Path

def folder (p : Path) : List String :=
  if p.segments.getLast? = some "" then p.segments.dropLast else p.segments

theorem folder_ne_nil (p : Path) (h : p.text ≠ "") : p.folder ≠ [] := by
  unfold folder
  intro none
  rcases hs : p.segments with - | ⟨s, rest⟩
  · exact h (by rw [text, hs]; rfl)
  · rw [hs] at none
    split at none
    · rename_i last
      cases rest with
      | nil =>
        have only : s = "" := by simpa using last
        exact h (by rw [text, hs, only]; rfl)
      | cons s' rest => cases none
    · cases none

theorem segments_eq_folder (p : Path) :
    p.segments = p.folder ∨ p.segments = p.folder ++ [""] := by
  unfold folder
  split
  · rename_i last
    obtain ⟨front, hf⟩ := List.getLast?_eq_some_iff.mp last
    rw [hf, List.dropLast_concat]
    exact .inr rfl
  · exact .inl rfl

theorem isIdle_of_isEntryName (s : String) (h : IsEntryName s) : isIdle s = false := by
  simp [isIdle, h.filled, h.notCurrent]

theorem component?_of_isEntryName (s : String) (h : IsEntryName s) :
    component? s = some (.normal s) := by
  simp [component?, isIdle_of_isEntryName s h, h.notParent]

theorem component?_of_isIdle (s : String) (h : isIdle s = true) : component? s = none := by
  simp [component?, h]

theorem isAbsolute_of_moving (s : String) (rest : List String) (moves : isIdle s = false) :
    isAbsolute ⟨s :: rest⟩ = false := by
  unfold isAbsolute
  split
  · rename_i heq
    have root : s = "" := (List.cons.inj heq).1
    rw [root] at moves
    cases moves
  · rfl

theorem isAbsolute_names (names : List String) (h : ∀ s ∈ names, IsEntryName s) :
    isAbsolute ⟨names⟩ = false := by
  cases names with
  | nil => rfl
  | cons s rest => exact isAbsolute_of_moving s rest (isIdle_of_isEntryName s (h s (.head _)))

theorem below_eq (p : Path) (names : List String) (hne : names ≠ [])
    (h : ∀ s ∈ names, IsEntryName s) : p.below names = ⟨p.folder ++ names⟩ := by
  rw [below, if_neg hne, join, isAbsolute_names names h]
  unfold folder
  by_cases last : p.segments.getLast? = some ""
  · simp only [Bool.false_eq_true, if_false, if_pos last]
  · simp only [Bool.false_eq_true, if_false, if_neg last]

/-- What a path starts at, and the segments after it, when a name is still to come. -/
def lead : List String → Option Component × List String
  | [] => (none, [])
  | s :: rest =>
    if s = "" then (some .root, rest)
    else if s = "." then (some .current, rest)
    else (none, s :: rest)

theorem segment_cases (s : String) : s = "" ∨ s = "." ∨ isIdle s = false := by
  cases idle : isIdle s with
  | true => exact (by simpa [isIdle] using idle : s = "" ∨ s = ".").imp_right .inl
  | false => exact .inr (.inr rfl)

theorem lead_of_moving {s : String} (moves : isIdle s = false) (rest : List String) :
    lead (s :: rest) = (none, s :: rest) := by
  obtain ⟨filled, notCurrent⟩ : s ≠ "" ∧ s ≠ "." := by simpa [isIdle] using moves
  rw [lead, if_neg filled, if_neg notCurrent]

theorem start_cons_of_moving {s : String} (moves : isIdle s = false) (rest : List String) :
    start ⟨s :: rest⟩ = (none, s :: rest) := by
  obtain ⟨filled, notCurrent⟩ : s ≠ "" ∧ s ≠ "." := by simpa [isIdle] using moves
  unfold start
  split
  · rename_i heq
    exact absurd (List.cons.inj heq).1 filled
  · rename_i heq
    exact absurd (List.cons.inj heq).1 notCurrent
  · rfl

theorem start_of_moving (front rest : List String) (s : String) (moves : isIdle s = false) :
    start ⟨front ++ s :: rest⟩ = ((lead front).1, (lead front).2 ++ s :: rest) := by
  cases front with
  | nil => exact start_cons_of_moving moves rest
  | cons first front =>
    rcases segment_cases first with rfl | rfl | goes
    · cases front <;> rfl
    · rfl
    · rw [lead_of_moving goes, List.cons_append, start_cons_of_moving goes]

def ancestors (front : List String) : List Component :=
  (lead front).1.toList ++ (lead front).2.filterMap component?

theorem filterMap_idle (idle : List String) (allIdle : ∀ s ∈ idle, isIdle s = true) :
    idle.filterMap component? = [] := by
  rw [List.filterMap_eq_nil_iff]
  exact fun s hs => component?_of_isIdle s (allIdle s hs)

theorem components_of_moving (front rest : List String) (s : String) (moves : isIdle s = false) :
    components ⟨front ++ s :: rest⟩ = ancestors front ++ (s :: rest).filterMap component? := by
  rw [components, start_of_moving front rest s moves, List.filterMap_append, ancestors,
    List.append_assoc]

theorem components_named (front idle : List String) (name : String) (h : IsEntryName name)
    (allIdle : ∀ s ∈ idle, isIdle s = true) :
    components ⟨front ++ name :: idle⟩ = ancestors front ++ [.normal name] := by
  rw [components_of_moving front idle name (isIdle_of_isEntryName name h)]
  simp [component?_of_isEntryName name h, filterMap_idle idle allIdle]

theorem fileName?_named (front idle : List String) (name : String) (h : IsEntryName name)
    (allIdle : ∀ s ∈ idle, isIdle s = true) : fileName? ⟨front ++ name :: idle⟩ = some name := by
  rw [fileName?, components_named front idle name h allIdle, List.getLast?_concat]

theorem dropIdleRight_named (segments idle : List String) (name : String) (h : IsEntryName name)
    (allIdle : ∀ s ∈ idle, isIdle s = true) :
    dropIdleRight (segments ++ name :: idle) = segments ++ [name] := by
  have reversed : ∀ s ∈ idle.reverse, isIdle s = true := fun s hs =>
    allIdle s (List.mem_reverse.mp hs)
  rw [dropIdleRight, List.reverse_append, List.reverse_cons, List.append_assoc,
    List.dropWhile_append_of_pos reversed]
  simp [isIdle_of_isEntryName name h]

theorem dropIdleRight_append (segments : List String) :
    ∃ idle, segments = dropIdleRight segments ++ idle ∧ ∀ s ∈ idle, isIdle s = true := by
  refine ⟨(segments.reverse.takeWhile isIdle).reverse, ?_, ?_⟩
  · rw [dropIdleRight, ← List.reverse_append, List.takeWhile_append_dropWhile,
      List.reverse_reverse]
  · intro s hs
    exact List.all_eq_true.mp List.all_takeWhile s (List.mem_reverse.mp hs)

/-- The segments before the name in a path whose last name was replaced. -/
def trimmedFront (front : List String) : List String :=
  match (lead front).1 with
  | some .root => "" :: dropIdleRight (lead front).2
  | some .current => "." :: dropIdleRight (lead front).2
  | _ => dropIdleRight front

theorem trimmedFront_of_moving {s : String} (moves : isIdle s = false) (rest : List String) :
    trimmedFront (s :: rest) = dropIdleRight (s :: rest) := by
  simp only [trimmedFront, lead_of_moving moves]

theorem getLast?_dropIdleRight (segments : List String) :
    (dropIdleRight segments).getLast? ≠ some "" := by
  rw [dropIdleRight, List.getLast?_reverse]
  intro last
  have kept := List.head?_dropWhile_not isIdle segments.reverse
  rw [last] at kept
  exact absurd kept (by decide)

theorem dropIdleRight_ne_nil (s : String) (rest : List String) (h : isIdle s = false) :
    dropIdleRight (s :: rest) ≠ [] := by
  obtain ⟨idle, split, allIdle⟩ := dropIdleRight_append (s :: rest)
  intro none
  rw [none, List.nil_append] at split
  have first := allIdle s (by rw [← split]; exact List.mem_cons_self ..)
  rw [h] at first
  cases first

theorem parent?_named (front idle : List String) (name : String) (h : IsEntryName name)
    (allIdle : ∀ s ∈ idle, isIdle s = true) :
    parent? ⟨front ++ name :: idle⟩ =
      some (ofStart (lead front).1 (dropIdleRight (lead front).2)) := by
  unfold parent?
  rw [start_of_moving front idle name (isIdle_of_isEntryName name h)]
  simp only [dropIdleRight_named _ idle name h allIdle]
  split
  · rename_i none
    simp at none
  · rename_i none
    simp at none
  · rename_i first rest heq _ _
    cases heq
    rw [List.dropLast_concat]

theorem ofText_of_noSlash (name : String) (h : '/' ∉ name.toList) : ofText name = ⟨[name]⟩ := by
  rw [ofText, List.splitOn_eq_singleton h]
  simp

theorem ofText_of_isEntryName (name : String) (h : IsEntryName name) : ofText name = ⟨[name]⟩ :=
  ofText_of_noSlash name h.noSlash

theorem isAbsolute_singleton (name : String) : isAbsolute ⟨[name]⟩ = false := by
  unfold isAbsolute
  split
  · rename_i heq
    cases heq
  · rfl

theorem join_name (p : Path) (name : String) : p.join ⟨[name]⟩ = ⟨p.folder ++ [name]⟩ := by
  unfold join folder
  rw [isAbsolute_singleton]
  by_cases last : p.segments.getLast? = some ""
  · simp only [Bool.false_eq_true, if_false, if_pos last]
  · simp only [Bool.false_eq_true, if_false, if_neg last]

theorem folder_of_getLast? (segments : List String) (h : segments.getLast? ≠ some "") :
    folder ⟨segments⟩ = segments := if_neg h

theorem folder_ofStart (front : List String) :
    folder (ofStart (lead front).1 (dropIdleRight (lead front).2)) = trimmedFront front := by
  cases front with
  | nil => rfl
  | cons s rest =>
    have last := getLast?_dropIdleRight rest
    rcases segment_cases s with rfl | rfl | moves
    · show folder (ofStart (some .root) (dropIdleRight rest)) = "" :: dropIdleRight rest
      cases hd : dropIdleRight rest with
      | nil => rfl
      | cons x more =>
        rw [hd] at last
        exact folder_of_getLast? _ (by rwa [List.getLast?_cons_cons])
    · show folder (ofStart (some .current) (dropIdleRight rest)) = "." :: dropIdleRight rest
      cases hd : dropIdleRight rest with
      | nil => rfl
      | cons x more =>
        rw [hd] at last
        exact folder_of_getLast? _ (by rwa [List.getLast?_cons_cons])
    · have last := getLast?_dropIdleRight (s :: rest)
      obtain ⟨x, more, hd⟩ := List.exists_cons_of_ne_nil (dropIdleRight_ne_nil s rest moves)
      rw [trimmedFront_of_moving moves, lead_of_moving moves, hd]
      rw [hd] at last
      exact folder_of_getLast? _ last

theorem withFileName_named (front idle : List String) (name new : String) (h : IsEntryName name)
    (allIdle : ∀ s ∈ idle, isIdle s = true) (hnew : IsEntryName new) :
    withFileName ⟨front ++ name :: idle⟩ new = ⟨trimmedFront front ++ [new]⟩ := by
  rw [withFileName, fileName?_named front idle name h allIdle,
    parent?_named front idle name h allIdle]
  simp only [ofText_of_isEntryName new hnew, join_name, folder_ofStart front]

theorem filterMap_dropIdleRight (segments : List String) :
    (dropIdleRight segments).filterMap component? = segments.filterMap component? := by
  obtain ⟨idle, split, allIdle⟩ := dropIdleRight_append segments
  conv => rhs; rw [split, List.filterMap_append, filterMap_idle idle allIdle, List.append_nil]

theorem trimmedFront_append (front : List String) :
    ∃ idle, front = trimmedFront front ++ idle ∧ ∀ s ∈ idle, isIdle s = true := by
  cases front with
  | nil => exact ⟨[], rfl, by simp⟩
  | cons s rest =>
    obtain ⟨idle, split, allIdle⟩ := dropIdleRight_append rest
    rcases segment_cases s with rfl | rfl | moves
    · exact ⟨idle, congrArg (List.cons "") split, allIdle⟩
    · exact ⟨idle, congrArg (List.cons ".") split, allIdle⟩
    · rw [trimmedFront_of_moving moves]
      exact dropIdleRight_append (s :: rest)

theorem ancestors_trimmedFront (front : List String) :
    ancestors (trimmedFront front) = ancestors front := by
  cases front with
  | nil => rfl
  | cons s rest =>
    rcases segment_cases s with rfl | rfl | moves
    · exact congrArg (List.cons Component.root) (filterMap_dropIdleRight rest)
    · exact congrArg (List.cons Component.current) (filterMap_dropIdleRight rest)
    · obtain ⟨x, more, hd⟩ := List.exists_cons_of_ne_nil (dropIdleRight_ne_nil s rest moves)
      obtain ⟨idle, split, -⟩ := dropIdleRight_append (s :: rest)
      obtain rfl : s = x := by
        rw [hd, List.cons_append] at split
        exact (List.cons.inj split).1
      rw [trimmedFront_of_moving moves, ancestors, ancestors, hd, lead_of_moving moves,
        lead_of_moving moves, ← hd, filterMap_dropIdleRight]

theorem same_renamed (front : List String) (name new : String) (h : IsEntryName name)
    (hnew : IsEntryName new) :
    same ⟨trimmedFront front ++ [new]⟩ ⟨front ++ [name]⟩ = decide (new = name) := by
  rw [same, components_named _ [] new hnew (by simp), components_named front [] name h (by simp),
    ancestors_trimmedFront]
  by_cases e : new = name
  · simp [e]
  · simp [e]

theorem lead_append (front more : List String) (hne : front ≠ []) :
    lead (front ++ more) = ((lead front).1, (lead front).2 ++ more) := by
  cases front with
  | nil => exact absurd rfl hne
  | cons s rest =>
    rw [List.cons_append, lead, lead]
    split
    · rfl
    · split <;> rfl

theorem filterMap_component? (names : List String) (h : ∀ s ∈ names, IsEntryName s) :
    names.filterMap component? = names.map .normal := by
  induction names with
  | nil => rfl
  | cons s rest ih =>
    rw [List.filterMap_cons, component?_of_isEntryName s (h s (List.mem_cons_self ..)),
      List.map_cons, ih fun x hx => h x (List.mem_cons_of_mem _ hx)]

theorem components_below (folder names : List String) (hn : names ≠ [])
    (named : ∀ s ∈ names, IsEntryName s) :
    components ⟨folder ++ names⟩ = ancestors folder ++ names.map .normal := by
  obtain ⟨s, rest, rfl⟩ := List.exists_cons_of_ne_nil hn
  rw [components_of_moving folder rest s (isIdle_of_isEntryName s (named s (.head _))),
    filterMap_component? (s :: rest) named]

theorem depth_below (folder names : List String) (hn : names ≠ [])
    (h : ∀ s ∈ names, IsEntryName s) :
    depth ⟨folder ++ names⟩ = (ancestors folder).length + names.length := by
  rw [depth, components_below folder names hn h, List.length_append, List.length_map]

theorem mem_text_iff (p : Path) (c : Char) (hc : c ≠ '/') :
    c ∈ p.text.toList ↔ ∃ s ∈ p.segments, c ∈ s.toList := by
  have slash : "/".toList = ['/'] := rfl
  rw [text, String.toList_intercalate, slash]
  induction p.segments with
  | nil => simp
  | cons s rest ih =>
    cases rest with
    | nil => simp
    | cons s' rest =>
      have joined : ['/'].intercalate ((s :: s' :: rest).map String.toList) =
          s.toList ++ ['/'] ++ ['/'].intercalate ((s' :: rest).map String.toList) := by
        simp [List.intercalate_cons_of_ne_nil]
      rw [joined, List.mem_append, List.mem_append, List.mem_singleton]
      constructor
      · rintro ((inFirst | slash) | inRest)
        · exact ⟨s, List.mem_cons_self .., inFirst⟩
        · exact absurd slash hc
        · obtain ⟨x, hx, inside⟩ := ih.mp inRest
          exact ⟨x, List.mem_cons_of_mem _ hx, inside⟩
      · rintro ⟨x, hx, inside⟩
        rcases List.mem_cons.mp hx with rfl | hx
        · exact .inl (.inl inside)
        · exact .inr (ih.mpr ⟨x, hx, inside⟩)

theorem text_concat_ne_empty (front : List String) (name : String) (h : IsEntryName name) :
    text ⟨front ++ [name]⟩ ≠ "" := by
  obtain ⟨c, rest, spelled⟩ :=
    List.exists_cons_of_ne_nil fun nil => h.filled (String.toList_eq_nil_iff.mp nil)
  have first : c ∈ name.toList := by
    rw [spelled]
    exact List.mem_cons_self ..
  have inText : c ∈ (text ⟨front ++ [name]⟩).toList :=
    (mem_text_iff _ c fun slash => h.noSlash (slash ▸ first)).mpr ⟨name, by simp, first⟩
  intro empty
  rw [empty] at inText
  cases inText

end SimpleFiles.Path
