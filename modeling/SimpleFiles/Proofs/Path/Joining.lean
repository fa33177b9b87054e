import SimpleFiles.Proofs.Path.Steps

/-! Paths that are read from a text, put below another path, or shortened. -/
namespace SimpleFiles.Path

theorem mem_of_mem_splitOn (sep : Char) (cs part : List Char) (h : part ∈ cs.splitOn sep) :
    sep ∉ part ∧ ∀ c ∈ part, c ∈ cs := by
  induction cs generalizing part with
  | nil =>
    rw [List.splitOn_nil, List.mem_singleton] at h
    simp [h]
  | cons c cs ih =>
    rw [List.splitOn_cons_eq_if_modifyHead] at h
    split at h
    · rcases List.mem_cons.mp h with rfl | h
      · simp
      · exact ⟨(ih part h).1, fun x hx => List.mem_cons_of_mem _ ((ih part h).2 x hx)⟩
    · rename_i other
      obtain ⟨first, rest, split⟩ := List.exists_cons_of_ne_nil (List.splitOn_ne_nil sep cs)
      rw [split, List.modifyHead_cons] at h
      rcases List.mem_cons.mp h with rfl | h
      · obtain ⟨noSep, inside⟩ := ih first (by simp [split])
        have notHere : sep ≠ c := fun same => other (by simp [same])
        refine ⟨by simp [notHere, noSep], ?_⟩
        intro x hx
        rcases List.mem_cons.mp hx with rfl | hx
        · exact List.mem_cons_self ..
        · exact List.mem_cons_of_mem _ (inside x hx)
      · obtain ⟨noSep, inside⟩ := ih part (by simp [split, h])
        exact ⟨noSep, fun x hx => List.mem_cons_of_mem _ (inside x hx)⟩

theorem mem_of_mem_ofText (text s : String) (h : s ∈ (ofText text).segments) :
    '/' ∉ s.toList ∧ ∀ c ∈ s.toList, c ∈ text.toList := by
  obtain ⟨part, hp, rfl⟩ := List.mem_map.mp h
  simpa using mem_of_mem_splitOn '/' text.toList part hp

theorem join_cases (p q : Path) :
    q.isAbsolute = true ∧ p.join q = q ∨
      q.isAbsolute = false ∧ p.join q = ⟨p.folder ++ q.segments⟩ := by
  unfold join folder
  cases q.isAbsolute with
  | true => exact .inl ⟨rfl, rfl⟩
  | false =>
    refine .inr ⟨rfl, ?_⟩
    split
    · contradiction
    · split <;> rfl

theorem text_join_ne_empty (p q : Path) (filled : p.text ≠ "") (named : q.segments ≠ []) :
    (p.join q).text ≠ "" := by
  rcases p.join_cases q with ⟨absolute, same⟩ | ⟨-, same⟩
  · rw [same]
    intro empty
    rw [text_eq_empty_iff] at empty
    rcases empty with none | one <;> simp [isAbsolute, *] at absolute
  · rw [same]
    intro empty
    rw [text_eq_empty_iff] at empty
    have started := p.folder_ne_nil filled
    obtain ⟨s, rest, split⟩ := List.exists_cons_of_ne_nil started
    obtain ⟨s', rest', split'⟩ := List.exists_cons_of_ne_nil named
    simp [split, split'] at empty

theorem exists_name_of_plain (segments : List String)
    (plain : ∀ s ∈ segments, '/' ∉ s.toList ∧ '.' ∉ s.toList ∧ '\x00' ∉ s.toList) :
    (∀ s ∈ segments, s = "") ∨ ∃ init name slashes, segments = init ++ name :: slashes ∧
      IsEntryName name ∧ ∀ s ∈ slashes, s = "" := by
  induction segments with
  | nil => exact .inl (by simp)
  | cons s rest ih =>
    rcases ih fun x hx => plain x (List.mem_cons_of_mem _ hx) with
      allEmpty | ⟨init, name, slashes, rfl, named, allEmpty⟩
    · by_cases empty : s = ""
      · exact .inl (List.forall_mem_cons.mpr ⟨empty, allEmpty⟩)
      · obtain ⟨noSlash, noDot, noZero⟩ := plain s (List.mem_cons_self ..)
        have named : IsEntryName s :=
          ⟨empty, fun dot => noDot (by simp [dot]), fun up => noDot (by simp [up]), noSlash, noZero⟩
        exact .inr ⟨[], s, rest, rfl, named, allEmpty⟩
    · exact .inr ⟨s :: init, name, slashes, rfl, named, allEmpty⟩

theorem trimmedFront_named (front idle : List String) (name : String) (h : IsEntryName name)
    (allIdle : ∀ s ∈ idle, isIdle s = true) :
    trimmedFront (front ++ name :: idle) = front ++ [name] := by
  cases front with
  | nil =>
    rw [List.nil_append, trimmedFront_of_moving (isIdle_of_isEntryName name h)]
    exact dropIdleRight_named [] idle name h allIdle
  | cons s front =>
    have trimmed := dropIdleRight_named front idle name h allIdle
    rcases segment_cases s with rfl | rfl | moves
    · exact congrArg (List.cons "") trimmed
    · exact congrArg (List.cons ".") trimmed
    · rw [List.cons_append, trimmedFront_of_moving moves]
      exact dropIdleRight_named (s :: front) idle name h allIdle

theorem segments_of_parent? (front between idle : List String) (first last : String)
    (hf : IsEntryName first) (hl : IsEntryName last) (betweenIdle : ∀ s ∈ between, isIdle s = true)
    (allIdle : ∀ s ∈ idle, isIdle s = true) (q : Path)
    (h : parent? ⟨front ++ first :: between ++ last :: idle⟩ = some q) :
    ∃ trailing, q.segments = front ++ [first] ++ trailing ∧ ∀ s ∈ trailing, s = "" := by
  rw [parent?_named (front ++ first :: between) idle last hl allIdle, Option.some.injEq] at h
  have folder := folder_ofStart (front ++ first :: between)
  rw [h, trimmedFront_named front between first hf betweenIdle] at folder
  rcases q.segments_eq_folder with same | trailing
  · exact ⟨[], by rw [same, folder, List.append_nil], by simp⟩
  · exact ⟨[""], by rw [trailing, folder], by simp⟩

/-- A path is its own ancestor, and so is its parent and whatever is an ancestor of that. -/
inductive IsAncestor : Path → Path → Prop
  | self (p : Path) : IsAncestor p p
  | above {p q r : Path} (found : p.parent? = some q) (h : IsAncestor r q) : IsAncestor r p

end SimpleFiles.Path
