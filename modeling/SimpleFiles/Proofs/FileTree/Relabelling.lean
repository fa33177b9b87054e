import Mathlib.Data.List.Induction
import Mathlib.Data.List.Nodup
import SimpleFiles.Proofs.FileTree.Walking

/-! Trees that differ in names only: each location gets the names that are given to it
and to the locations above it. -/
namespace SimpleFiles.FileTree

def relabelFrom (name : Location → String) (before : Location) : List String → Location
  | [] => []
  | s :: rest => name (before ++ [s]) :: relabelFrom name (before ++ [s]) rest

/-- A location, each name in it replaced by what is given to the location that ends there. -/
def relabel (name : Location → String) (l : Location) : Location := relabelFrom name [] l

section
variable (name other : Location → String)

theorem relabelFrom_append (before first rest : Location) :
    relabelFrom name before (first ++ rest) =
      relabelFrom name before first ++ relabelFrom name (before ++ first) rest := by
  induction first generalizing before with
  | nil => simp [relabelFrom]
  | cons s first ih => simp [relabelFrom, ih]

theorem relabel_append (l rest : Location) :
    relabel name (l ++ rest) = relabel name l ++ relabelFrom name l rest := by
  rw [relabel, relabelFrom_append, List.nil_append, relabel]

theorem relabel_concat (l : Location) (s : String) :
    relabel name (l ++ [s]) = relabel name l ++ [name (l ++ [s])] := by
  rw [relabel_append]
  rfl

theorem length_relabelFrom (before l : Location) :
    (relabelFrom name before l).length = l.length := by
  induction l generalizing before with
  | nil => rfl
  | cons s rest ih => rw [relabelFrom, List.length_cons, ih, List.length_cons]

theorem length_relabel (l : Location) : (relabel name l).length = l.length :=
  length_relabelFrom name [] l

theorem relabelFrom_congr (before l : Location)
    (h : ∀ m, m ≠ [] → m <+: l → name (before ++ m) = other (before ++ m)) :
    relabelFrom name before l = relabelFrom other before l := by
  induction l generalizing before with
  | nil => rfl
  | cons s rest ih =>
    rw [relabelFrom, relabelFrom, h [s] (List.cons_ne_nil _ _) (by simp), ih (before ++ [s])]
    intro m hm hp
    have longer := h (s :: m) (List.cons_ne_nil _ _) (by simpa using hp)
    simpa using longer

theorem relabel_congr (l : Location) (h : ∀ m, m ≠ [] → m <+: l → name m = other m) :
    relabel name l = relabel other l :=
  relabelFrom_congr name other [] l (by simpa using h)

def lastName (l : Location) : String := l.getLast?.getD ""

@[simp] theorem lastName_concat (l : Location) (s : String) : lastName (l ++ [s]) = s := by
  simp [lastName]

theorem relabel_lastName (l : Location) : relabel lastName l = l := by
  induction l using List.reverseRecOn with
  | nil => rfl
  | append_singleton l s ih => rw [relabel_concat, ih, lastName_concat]

theorem relabel_eq_self (l : Location) (h : ∀ m, m ≠ [] → m <+: l → name m = lastName m) :
    relabel name l = l := by
  rw [relabel_congr name lastName l h, relabel_lastName]

end

/-- Siblings get different names. -/
def Separates (t : FileTree) (name : Location → String) : Prop :=
  ∀ l a b, t.contains (l ++ [a]) = true → t.contains (l ++ [b]) = true →
    name (l ++ [a]) = name (l ++ [b]) → a = b

theorem relabel_injective (t : FileTree) (closed : t.IsClosed) (name : Location → String)
    (h : t.Separates name) (l m : Location) (hl : t.contains l = true) (hm : t.contains m = true)
    (same : relabel name l = relabel name m) : l = m := by
  induction l using List.reverseRecOn generalizing m with
  | nil =>
    have short := length_relabel name m
    rw [← same] at short
    exact (List.eq_nil_of_length_eq_zero short.symm).symm
  | append_singleton l s ih =>
    have long := length_relabel name m
    rw [← same, length_relabel, List.length_append, List.length_singleton] at long
    have filled : m ≠ [] := by
      rintro rfl
      cases long
    obtain ⟨k, r, rfl⟩ := (List.eq_nil_or_concat' m).resolve_left filled
    rw [relabel_concat, relabel_concat] at same
    have above := List.append_inj_left' same rfl
    have last := List.append_inj_right' same rfl
    have parent := t.contains_above closed _ l hl (List.prefix_append _ _)
    have parent' := t.contains_above closed _ k hm (List.prefix_append _ _)
    have equal : l = k := ih k parent parent' above
    subst equal
    rw [h l s r hl hm (List.cons.inj last).1]

/-- The entries of one tree are those of another, relabelled. -/
def IsImage (u t : FileTree) (f : Location → Location) : Prop :=
  ∀ e, e ∈ u.entries ↔ ∃ l, (l, e.2) ∈ t.entries ∧ f l = e.1

theorem IsImage.hasNoLinks {u t : FileTree} {f : Location → Location} (h : u.IsImage t f)
    (plain : t.HasNoLinks) : u.HasNoLinks := by
  intro e he
  obtain ⟨l, hl, -⟩ := (h e).mp he
  have kept := plain (l, e.2) hl
  exact kept

section
variable {u t : FileTree} {name : Location → String} (h : u.IsImage t (relabel name))

include h in
theorem IsImage.isClosed (closed : t.IsClosed) : u.IsClosed := by
  intro e he
  obtain ⟨l, hl, same⟩ := (h e).mp he
  obtain ⟨filled, parent⟩ := closed _ hl
  obtain ⟨k, s, rfl⟩ := (List.eq_nil_or_concat' l).resolve_left filled
  rw [relabel_concat] at same
  rw [← same]
  refine ⟨by simp, ?_⟩
  rw [List.dropLast_concat] at parent ⊢
  by_cases root : k = []
  · subst root
    rfl
  · have filled' : relabel name k ≠ [] := by
      intro none
      have short := length_relabel name k
      rw [none] at short
      exact root (List.eq_nil_of_length_eq_zero short.symm)
    rw [isDirectory_iff_mem t k root] at parent
    rw [isDirectory_iff_mem u _ filled']
    exact (h _).mpr ⟨k, parent, rfl⟩

include h in
theorem IsImage.get?_of_kept (l : Location) (hl : t.contains l = true)
    (kept : relabel name l = l) : u.get? l = t.get? l := by
  by_cases root : l = []
  · subst root
    rfl
  · obtain ⟨n, hn⟩ := Option.isSome_iff_exists.mp hl
    rw [hn]
    exact (u.get?_eq_some_iff l root n).mpr
      ((h _).mpr ⟨l, (t.get?_eq_some_iff l root n).mp hn, kept⟩)

include h in
theorem IsImage.exists_of_contains (closed : t.IsClosed) (parent : Location) (a : String)
    (ha : u.contains (parent ++ [a]) = true) :
    ∃ k s, t.contains (k ++ [s]) = true ∧ relabel name k = parent ∧ name (k ++ [s]) = a := by
  obtain ⟨n, hn⟩ := Option.isSome_iff_exists.mp ha
  obtain ⟨l, hl, same⟩ := (h (parent ++ [a], n)).mp ((u.get?_eq_some_iff _ (by simp) n).mp hn)
  obtain ⟨k, s, rfl⟩ := (List.eq_nil_or_concat' l).resolve_left (closed _ hl).1
  rw [relabel_concat] at same
  exact ⟨k, s, t.contains_of_mem closed _ hl, List.append_inj_left' same rfl,
    (List.cons.inj (List.append_inj_right' same rfl)).1⟩

end

theorem isImage_lastName (t : FileTree) : t.IsImage t (relabel lastName) := by
  intro e
  simp [relabel_lastName]

theorem separates_lastName (t : FileTree) : t.Separates lastName := by
  intro l a b _ _ same
  simpa using same

theorem mem_relabel (name : Location → String) (l : Location) (s : String)
    (h : s ∈ relabel name l) : ∃ m, m ≠ [] ∧ m <+: l ∧ name m = s := by
  induction l using List.reverseRecOn with
  | nil => cases h
  | append_singleton l r ih =>
    rw [relabel_concat, List.mem_append, List.mem_singleton] at h
    rcases h with above | here
    · obtain ⟨m, filled, within, given⟩ := ih above
      exact ⟨m, filled, within.trans (List.prefix_append _ _), given⟩
    · exact ⟨l ++ [r], by simp, List.prefix_refl _, here.symm⟩

theorem IsImage.perm {u t : FileTree} {name : Location → String}
    (h : u.IsImage t (relabel name)) (closed : t.IsClosed) (separates : t.Separates name) :
    u.entries.Perm (t.entries.map fun e => (relabel name e.1, e.2)) := by
  have apart : (t.entries.map fun e => (relabel name e.1, e.2)).Nodup := by
    refine List.Nodup.map_on ?_ t.entries_nodup
    rintro ⟨l, n⟩ hl ⟨m, k⟩ hm same
    obtain ⟨sameLocation, rfl⟩ := Prod.mk.inj same
    rw [t.relabel_injective closed name separates l m (t.contains_of_mem closed _ hl)
      (t.contains_of_mem closed _ hm) sameLocation]
  rw [List.perm_ext_iff_of_nodup u.entries_nodup apart]
  intro e
  rw [h e, List.mem_map]
  constructor
  · rintro ⟨l, hl, same⟩
    exact ⟨(l, e.2), hl, by rw [same]⟩
  · rintro ⟨⟨l, n⟩, hl, rfl⟩
    exact ⟨l, hl, rfl⟩

def nameAt (name : Location → String) (l : Location) (new : String) (m : Location) : String :=
  if m = l then new else name m

theorem exists_prefix_of_prefix_relabel (name : Location → String) (l m : Location)
    (h : m <+: relabel name l) : ∃ k, k <+: l ∧ relabel name k = m := by
  have long := h.length_le
  rw [length_relabel] at long
  refine ⟨l.take m.length, List.take_prefix _ _, ?_⟩
  have whole : relabel name l =
      relabel name (l.take m.length) ++ relabelFrom name (l.take m.length) (l.drop m.length) := by
    rw [← relabel_append, List.take_append_drop]
  have short : (relabel name (l.take m.length)).length = m.length := by
    rw [length_relabel, List.length_take, Nat.min_eq_left long]
  rw [whole] at h
  have within := List.prefix_of_prefix_length_le h (List.prefix_append _ _)
    (Nat.le_of_eq short.symm)
  exact (within.eq_of_length short.symm).symm

section
variable {u t : FileTree} {name : Location → String} (image : u.IsImage t (relabel name))
  (closed : t.IsClosed) (parent : Location) (old new : String)
  (there : t.contains (parent ++ [old]) = true)
  (still : relabel name (parent ++ [old]) = parent ++ [old])
  (before : t.Separates name) (after : t.Separates (nameAt name (parent ++ [old]) new))
  (changes : new ≠ old)

include still in
theorem relabel_parent : relabel name parent = parent ∧ name (parent ++ [old]) = old := by
  rw [relabel_concat] at still
  exact ⟨List.append_inj_left' still rfl, (List.cons.inj (List.append_inj_right' still rfl)).1⟩

include closed there still before after changes in
theorem not_prefix_relabel (l : Location) (hl : t.contains l = true) :
    ¬ parent ++ [new] <+: relabel name l := by
  intro taken
  obtain ⟨m, hm, same⟩ := exists_prefix_of_prefix_relabel name l _ taken
  have inside := t.contains_above closed l m hl hm
  have filled : m ≠ [] := by
    rintro rfl
    simp [relabel, relabelFrom] at same
  obtain ⟨k, s, rfl⟩ := (List.eq_nil_or_concat' m).resolve_left filled
  rw [relabel_concat] at same
  have above := List.append_inj_left' same rfl
  have given : name (k ++ [s]) = new := (List.cons.inj (List.append_inj_right' same rfl)).1
  obtain ⟨parentKept, oldKept⟩ := relabel_parent parent old still
  have equal : k = parent := by
    refine t.relabel_injective closed name before k parent
      (t.contains_above closed _ k inside (List.prefix_append _ _))
      (t.contains_above closed _ parent there (List.prefix_append _ _)) ?_
    rw [above, parentKept]
  subst equal
  by_cases hs : s = old
  · rw [hs, oldKept] at given
    exact changes given.symm
  · have other : nameAt name (k ++ [old]) new (k ++ [s]) = new := by
      rw [nameAt, if_neg (by simpa using hs), given]
    have self : nameAt name (k ++ [old]) new (k ++ [old]) = new := if_pos rfl
    exact hs (after k s old inside there (other.trans self.symm))

theorem relabel_nameAt_outside (l m : Location) (h : ¬ m <+: l) :
    relabel (nameAt name m new) l = relabel name l := by
  apply relabel_congr
  rintro k - hk
  have other : k ≠ m := by
    rintro rfl
    exact h hk
  rw [nameAt, if_neg other]

include still in
theorem relabel_nameAt_append (rest : Location) :
    relabel (nameAt name (parent ++ [old]) new) (parent ++ [old] ++ rest) =
      parent ++ [new] ++ relabelFrom name (parent ++ [old]) rest := by
  have longer : ¬ parent ++ [old] <+: parent := by
    intro h
    have := h.length_le
    rw [List.length_append, List.length_singleton] at this
    omega
  have below : relabelFrom (nameAt name (parent ++ [old]) new) (parent ++ [old]) rest =
      relabelFrom name (parent ++ [old]) rest := by
    apply relabelFrom_congr
    intro k hk _
    rw [nameAt, if_neg (by simpa using hk)]
  rw [relabel_append, relabel_concat, relabel_nameAt_outside new parent _ longer,
    (relabel_parent parent old still).1, below, nameAt, if_pos rfl]

include closed there still before in
theorem prefix_of_prefix_relabel (l : Location) (hl : t.contains l = true)
    (h : parent ++ [old] <+: relabel name l) : parent ++ [old] <+: l := by
  obtain ⟨m, hm, same⟩ := exists_prefix_of_prefix_relabel name l _ h
  rw [← still] at same
  rwa [← t.relabel_injective closed name before m _ (t.contains_above closed l m hl hm) there
    same]

include image closed there still before after changes in
theorem IsImage.move :
    (u.move (parent ++ [old]) (parent ++ [new])).IsImage t
      (relabel (nameAt name (parent ++ [old]) new)) := by
  have filled : parent ++ [old] ≠ [] := by simp
  obtain ⟨n, hn⟩ := Option.isSome_iff_exists.mp there
  have moving : (parent ++ [old], n) ∈ u.entries :=
    (image _).mpr ⟨_, (t.get?_eq_some_iff _ filled n).mp hn, still⟩
  have free : ∀ e ∈ u.entries, ¬ parent ++ [new] <+: e.1 := by
    intro e he
    obtain ⟨l, hl, same⟩ := (image e).mp he
    rw [← same]
    exact not_prefix_relabel closed parent old new there still before after changes l
      (t.contains_of_mem closed _ hl)
  intro e
  rw [u.mem_move_iff _ _ filled (by simp) n moving free]
  constructor
  · rintro (⟨he, outside⟩ | ⟨rest, hrest, he⟩)
    · obtain ⟨l, hl, same⟩ := (image e).mp he
      refine ⟨l, hl, ?_⟩
      rw [relabel_nameAt_outside new l, same]
      rintro ⟨rest, rfl⟩
      rw [relabel_append, still] at same
      exact outside (same ▸ List.prefix_append _ _)
    · obtain ⟨l, hl, same⟩ := (image _).mp hrest
      have within : parent ++ [old] <+: l :=
        prefix_of_prefix_relabel closed parent old there still before l
          (t.contains_of_mem closed _ hl) (same ▸ List.prefix_append _ _)
      obtain ⟨below, rfl⟩ := within
      rw [relabel_append, still] at same
      refine ⟨_, hl, ?_⟩
      rw [relabel_nameAt_append parent old new still, List.append_cancel_left same, he]
  · rintro ⟨l, hl, same⟩
    by_cases within : parent ++ [old] <+: l
    · obtain ⟨below, rfl⟩ := within
      rw [relabel_nameAt_append parent old new still] at same
      refine .inr ⟨relabelFrom name (parent ++ [old]) below, (image _).mpr ⟨_, hl, ?_⟩, same.symm⟩
      rw [relabel_append, still]
    · rw [relabel_nameAt_outside new l _ within] at same
      refine .inl ⟨(image e).mpr ⟨l, hl, same⟩, ?_⟩
      rw [← same]
      exact fun h => within (prefix_of_prefix_relabel closed parent old there still before l
        (t.contains_of_mem closed _ hl) h)

end
end SimpleFiles.FileTree
