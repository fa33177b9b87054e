import SimpleFiles.Proofs.FileTree.Nodes

/-! An entry that is put or moved to a free place: the tree stays one that a disk may hold,
and it is known what is found in it. -/
namespace SimpleFiles.FileTree

def IsLegalName (s : String) : Prop := IsEntryName s ∧ s.utf8ByteSize ≤ Place.maxNameSize

instance (s : String) : Decidable (IsLegalName s) := inferInstanceAs (Decidable (_ ∧ _))

variable {t : FileTree}

section
variable {P : String → Prop} (names : ∀ e ∈ t.entries, ∀ s ∈ e.1, P s)

include names in
theorem forall_names_of_contains (l : Location) (h : t.contains l = true) : ∀ s ∈ l, P s := by
  by_cases root : l = []
  · simp [root]
  · obtain ⟨n, hn⟩ := (t.contains_iff l).mp h
    exact names _ ((t.get?_eq_some_iff l root n).mp hn)

include names in
theorem forall_names_insert (parent : Location) (name : String) (n : Node)
    (directory : t.isDirectory parent = true) (new : P name) :
    ∀ e ∈ (t.insert (parent ++ [name]) n).entries, ∀ s ∈ e.1, P s := by
  intro e he
  rcases (t.mem_insert_iff _ (by simp) n e).mp he with rfl | ⟨he, -⟩
  · have above := forall_names_of_contains names parent
      (by rw [contains, (t.isDirectory_iff parent).mp directory]; rfl)
    simp only [List.mem_append, List.mem_singleton]
    rintro s (hs | rfl)
    · exact above s hs
    · exact new
  · exact names e he

include names in
theorem forall_names_move (source parent : Location) (name : String) (filled : source ≠ [])
    {n : Node} (listed : (source, n) ∈ t.entries)
    (bare : ∀ e ∈ t.entries, parent ++ [name] <+: e.1 → e.1 = parent ++ [name])
    (directory : t.isDirectory parent = true) (new : P name) :
    ∀ e ∈ (t.move source (parent ++ [name])).entries, ∀ s ∈ e.1, P s := by
  intro e he
  rcases (t.mem_move_iff_of_bare source _ filled (by simp) n listed bare e).mp he with
    ⟨kept, -⟩ | ⟨rest, kept, below⟩
  · exact names e kept
  · rw [below]
    have above := forall_names_of_contains names parent
      (by rw [contains, (t.isDirectory_iff parent).mp directory]; rfl)
    simp only [List.mem_append, List.mem_singleton]
    rintro s ((hs | rfl) | hs)
    · exact above s hs
    · exact new
    · exact names _ kept s (List.mem_append_right _ hs)

end

theorem IsProper.legal_of_contains (proper : t.IsProper) (l : Location)
    (h : t.contains l = true) : ∀ s ∈ l, IsLegalName s :=
  forall_names_of_contains proper.named l h

theorem IsProper.isEntryName_of_mem (proper : t.IsProper) :
    ∀ e ∈ t.entries, ∀ s ∈ e.1, IsEntryName s :=
  fun e he s hs => (proper.named e he s hs).1

theorem IsClosed.get?_below (closed : t.IsClosed) (l rest : Location) (hr : rest ≠ [])
    (h : t.isDirectory l = false) : t.get? (l ++ rest) = none := by
  rw [← contains_eq_false_iff, Bool.eq_false_iff]
  intro there
  obtain ⟨s, more, rfl⟩ := List.exists_cons_of_ne_nil hr
  have above := t.contains_above closed _ (l ++ [s]) there (by simp)
  rw [t.isDirectory_of_contains closed l s above] at h
  cases h

theorem IsClosed.get?_of_missing (closed : t.IsClosed) (l rest : Location)
    (missing : t.get? l = none) : t.get? (l ++ rest) = none := by
  rw [← contains_eq_false_iff, Bool.eq_false_iff]
  intro there
  have above := t.contains_above closed _ l there (List.prefix_append l rest)
  rw [contains, missing] at above
  cases above

theorem IsClosed.isDirectory_dropLast (closed : t.IsClosed) (l : Location)
    (h : t.isDirectory l = true) : t.isDirectory l.dropLast = true := by
  rcases List.eq_nil_or_concat' l with rfl | ⟨parent, s, rfl⟩
  · exact h
  · rw [List.dropLast_concat]
    exact t.isDirectory_of_contains closed parent s
      ((t.contains_iff _).mpr ⟨_, (t.isDirectory_iff _).mp h⟩)

section
variable (proper : t.IsProper) (parent : Location) (name : String) (n : Node)
  (directory : t.isDirectory parent = true) (legal : IsLegalName name)
  (vacant : t.isDirectory (parent ++ [name]) = false) (noLink : n.isLink = false)

include directory vacant in
theorem IsClosed.insert (closed : t.IsClosed) : (t.insert (parent ++ [name]) n).IsClosed := by
  have filled : parent ++ [name] ≠ [] := by simp
  have still : ∀ l, t.isDirectory l = true →
      (t.insert (parent ++ [name]) n).isDirectory l = true := by
    intro l hl
    have elsewhere : l ≠ parent ++ [name] := by
      rintro rfl
      rw [vacant] at hl
      cases hl
    rw [isDirectory, get?_insert t _ filled, if_neg elsewhere]
    exact hl
  intro e he
  rcases (t.mem_insert_iff _ filled n e).mp he with rfl | ⟨he, -⟩
  · exact ⟨filled, still _ (by simpa using directory)⟩
  · exact ⟨(closed e he).1, still _ (closed e he).2⟩

include proper directory legal vacant noLink in
theorem IsProper.insert : (t.insert (parent ++ [name]) n).IsProper := by
  have filled : parent ++ [name] ≠ [] := by simp
  refine ⟨?_, proper.closed.insert parent name n directory vacant,
    forall_names_insert proper.named parent name n directory legal⟩
  intro e he
  rcases (t.mem_insert_iff _ filled n e).mp he with rfl | ⟨he, -⟩
  · exact noLink
  · exact proper.noLinks e he

end

section
variable (proper : t.IsProper) (source parent : Location) (name : String) (filled : source ≠ [])
  (there : t.contains source = true) (directory : t.isDirectory parent = true)
  (legal : IsLegalName name) (free : t.get? (parent ++ [name]) = none)

include proper free in
theorem IsProper.bare : ∀ e ∈ t.entries, ¬ parent ++ [name] <+: e.1 := by
  rintro ⟨l, n⟩ he above
  have taken := t.contains_above proper.closed l _ (t.contains_of_mem proper.closed _ he) above
  rw [contains, free] at taken
  cases taken

include proper filled there free in
theorem IsProper.get?_move (l : Location) :
    (t.move source (parent ++ [name])).get? l =
      if parent ++ [name] <+: l then t.get? (source ++ l.drop (parent ++ [name]).length)
      else if source <+: l then none
      else t.get? l := by
  obtain ⟨n, hn⟩ := (t.contains_iff source).mp there
  have listed := (t.get?_eq_some_iff source filled n).mp hn
  have target : parent ++ [name] ≠ [] := by simp
  by_cases root : l = []
  · subst root
    simp [filled]
  · ext k
    rw [get?_eq_some_iff _ l root, t.mem_move_iff source _ filled target n listed
      (proper.bare parent name free)]
    have bare := proper.bare parent name free
    constructor
    · rintro (⟨kept, outside⟩ | ⟨rest, kept, rfl⟩)
      · rw [if_neg (bare (l, k) kept), if_neg outside]
        exact (t.get?_eq_some_iff l root k).mpr kept
      · rw [if_pos (List.prefix_append _ _), List.drop_left]
        exact (t.get?_eq_some_iff _ (by simp [filled]) k).mpr kept
    · intro found
      split at found
      · rename_i within
        obtain ⟨rest, rfl⟩ := within
        rw [List.drop_left] at found
        exact .inr ⟨rest, (t.get?_eq_some_iff _ (by simp [filled]) k).mp found, rfl⟩
      · split at found
        · cases found
        · rename_i outside
          exact .inl ⟨(t.get?_eq_some_iff l root k).mp found, outside⟩

include proper filled there directory legal in
theorem IsProper.move_of_bare
    (bare : ∀ e ∈ t.entries, parent ++ [name] <+: e.1 → e.1 = parent ++ [name])
    (outside : ¬ source <+: parent) : (t.move source (parent ++ [name])).IsProper := by
  obtain ⟨n, hn⟩ := (t.contains_iff source).mp there
  have listed := (t.get?_eq_some_iff source filled n).mp hn
  have target : parent ++ [name] ≠ [] := by simp
  have onTop : (parent ++ [name]).dropLast = parent := by simp
  refine ⟨?_, ?_, ?_⟩
  · intro e he
    rcases (t.mem_move_iff_of_bare source _ filled target n listed bare e).mp he with
      ⟨kept, -⟩ | ⟨rest, kept, -⟩
    · exact proper.noLinks e kept
    · exact proper.noLinks (source ++ rest, e.2) kept
  · refine proper.closed.move t source _ filled target n listed bare ?_ ?_
    · rwa [onTop]
    · rwa [onTop]
  · exact forall_names_move proper.named source parent name filled listed bare directory legal

include proper filled there directory legal free in
theorem IsProper.move (outside : ¬ source <+: parent) :
    (t.move source (parent ++ [name])).IsProper :=
  proper.move_of_bare source parent name filled there directory legal
    (fun e he above => absurd above (proper.bare parent name free e he)) outside

end

theorem IsProper.write (proper : t.IsProper) (l : Location) (old new : ByteArray)
    (found : t.get? l = some (.file old)) : (t.insert l (.file new)).IsProper := by
  have there : t.contains l = true := (t.contains_iff l).mpr ⟨_, found⟩
  rcases List.eq_nil_or_concat' l with rfl | ⟨parent, name, rfl⟩
  · cases found
  · have vacant : t.isDirectory (parent ++ [name]) = false := by
      rw [isDirectory, found]
      rfl
    exact proper.insert parent name _ (t.isDirectory_of_contains proper.closed parent name there)
      (proper.legal_of_contains _ there name (by simp)) vacant rfl

theorem IsClosed.erase (closed : t.IsClosed) (l : Location) (vacant : t.isDirectory l = false) :
    (t.erase l).IsClosed := by
  intro e he
  obtain ⟨filled, above⟩ := closed e (List.mem_filter.mp he).1
  have elsewhere : e.1.dropLast ≠ l := by
    intro same
    rw [same, vacant] at above
    cases above
  refine ⟨filled, ?_⟩
  by_cases root : e.1.dropLast = []
  · rw [root]
    rfl
  · rw [isDirectory_iff_mem _ _ root] at above ⊢
    exact List.mem_filter.mpr ⟨above, by simpa using elsewhere⟩

theorem IsProper.erase (proper : t.IsProper) (l : Location) (vacant : t.isDirectory l = false) :
    (t.erase l).IsProper := by
  have kept : ∀ e ∈ (t.erase l).entries, e ∈ t.entries := fun e he => (List.mem_filter.mp he).1
  exact ⟨fun e he => proper.noLinks e (kept e he), proper.closed.erase l vacant,
    fun e he => proper.named e (kept e he)⟩

end SimpleFiles.FileTree
