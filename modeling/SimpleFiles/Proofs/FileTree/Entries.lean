import SimpleFiles.FileTree

/-! A tree is known by its entries: what is looked up is an entry, and each operation
says which entries there are afterwards. -/
namespace SimpleFiles.FileTree

theorem node_unique (t : FileTree) (l : Location) (n m : Node) (hn : (l, n) ∈ t.entries)
    (hm : (l, m) ∈ t.entries) : n = m := by
  have sorted := t.sorted
  generalize t.entries = entries at hn hm sorted
  induction entries with
  | nil => cases hn
  | cons e rest ih =>
    obtain ⟨first, later⟩ := List.pairwise_cons.mp sorted
    rcases List.mem_cons.mp hn with rfl | hn'
    · rcases List.mem_cons.mp hm with hm | hm'
      · exact (Prod.mk.inj hm).2.symm
      · exact absurd (first _ hm') (List.lt_irrefl _)
    · rcases List.mem_cons.mp hm with rfl | hm'
      · exact absurd (first _ hn') (List.lt_irrefl _)
      · exact ih hn' hm' later

theorem entries_nodup (t : FileTree) : t.entries.Nodup := by
  refine t.sorted.imp ?_
  rintro a b before rfl
  exact List.lt_irrefl _ before

theorem get?_eq_some_iff (t : FileTree) (l : Location) (hl : l ≠ []) (n : Node) :
    t.get? l = some n ↔ (l, n) ∈ t.entries := by
  rw [get?, if_neg hl]
  constructor
  · intro h
    obtain ⟨before, after, split, -⟩ := List.lookup_eq_some_iff.mp h
    simp [split]
  · intro h
    cases hf : t.entries.lookup l with
    | none =>
      have absent := List.lookup_eq_none_iff.mp hf _ h
      simp at absent
    | some m =>
      obtain ⟨before, after, split, -⟩ := List.lookup_eq_some_iff.mp hf
      rw [t.node_unique l m n (by simp [split]) h]

theorem get?_eq_none_iff (t : FileTree) (l : Location) (hl : l ≠ []) :
    t.get? l = none ↔ ∀ n, (l, n) ∉ t.entries := by
  rw [Option.eq_none_iff_forall_ne_some]
  constructor
  · intro h n hn
    exact h n ((t.get?_eq_some_iff l hl n).mpr hn)
  · intro h n hn
    exact h n ((t.get?_eq_some_iff l hl n).mp hn)

theorem isDirectory_iff_mem (t : FileTree) (l : Location) (hl : l ≠ []) :
    t.isDirectory l = true ↔ (l, .directory) ∈ t.entries := by
  rw [← t.get?_eq_some_iff l hl, isDirectory, Option.any_eq_true]
  constructor
  · rintro ⟨n, hn, directory⟩
    cases n with
    | directory => exact hn
    | file content => cases directory
    | link target => cases directory
  · exact fun hn => ⟨.directory, hn, rfl⟩

theorem mem_place_iff (l : Location) (n : Node) (entries : List (Location × Node))
    (sorted : entries.Pairwise (fun a b => a.1 < b.1)) (e : Location × Node) :
    e ∈ place l n entries ↔ e = (l, n) ∨ e ∈ entries ∧ e.1 ≠ l := by
  induction entries with
  | nil => simp [place]
  | cons f rest ih =>
    obtain ⟨first, later⟩ := List.pairwise_cons.mp sorted
    unfold place
    split
    · rename_i before
      have others : ∀ g ∈ f :: rest, g.1 ≠ l := by
        rintro g hg rfl
        rcases List.mem_cons.mp hg with rfl | hg'
        · exact List.lt_irrefl _ before
        · exact List.lt_irrefl _ (List.lt_trans before (first g hg'))
      rw [List.mem_cons]
      constructor
      · rintro (rfl | he)
        · exact .inl rfl
        · exact .inr ⟨he, others e he⟩
      · rintro (rfl | he)
        · exact .inl rfl
        · exact .inr he.1
    · split
      · rename_i here
        have others : ∀ g ∈ rest, g.1 ≠ l := by
          rintro g hg rfl
          exact List.lt_irrefl _ (here ▸ first g hg)
        rw [List.mem_cons, List.mem_cons]
        constructor
        · rintro (rfl | he)
          · exact .inl rfl
          · exact .inr ⟨.inr he, others e he⟩
        · rintro (rfl | ⟨rfl | he, hne⟩)
          · exact .inl rfl
          · exact absurd here.symm hne
          · exact .inr he
      · rename_i elsewhere
        rw [List.mem_cons, List.mem_cons, ih later]
        constructor
        · rintro (rfl | rfl | he)
          · exact .inr ⟨.inl rfl, Ne.symm elsewhere⟩
          · exact .inl rfl
          · exact .inr ⟨.inr he.1, he.2⟩
        · rintro (rfl | ⟨rfl | he, hne⟩)
          · exact .inr (.inl rfl)
          · exact .inl rfl
          · exact .inr (.inr ⟨he, hne⟩)

theorem mem_insert_iff (t : FileTree) (l : Location) (hl : l ≠ []) (n : Node)
    (e : Location × Node) :
    e ∈ (t.insert l n).entries ↔ e = (l, n) ∨ e ∈ t.entries ∧ e.1 ≠ l := by
  rw [insert, if_neg hl]
  exact mem_place_iff l n t.entries t.sorted e

theorem mem_prune_iff (t : FileTree) (l : Location) (e : Location × Node) :
    e ∈ (t.prune l).entries ↔ e ∈ t.entries ∧ ¬ l <+: e.1 := by
  simp [prune, filter, List.mem_filter, ← List.isPrefixOf_iff_prefix]

theorem mem_insertAll_iff (list : List (Location × Node)) (t : FileTree)
    (named : ∀ f ∈ list, f.1 ≠ []) (distinct : list.Pairwise fun a b => a.1 ≠ b.1)
    (e : Location × Node) :
    e ∈ (t.insertAll list).entries ↔ e ∈ list ∨ e ∈ t.entries ∧ ∀ f ∈ list, e.1 ≠ f.1 := by
  induction list generalizing t with
  | nil => simp [insertAll]
  | cons f rest ih =>
    obtain ⟨first, later⟩ := List.pairwise_cons.mp distinct
    have inserted := ih (t.insert f.1 f.2) (fun g hg => named g (List.mem_cons_of_mem _ hg)) later
    rw [mem_insert_iff t f.1 (named f (List.mem_cons_self ..))] at inserted
    show e ∈ ((t.insert f.1 f.2).insertAll rest).entries ↔ _
    rw [inserted, List.mem_cons]
    constructor
    · rintro (he | ⟨rfl | he, others⟩)
      · exact .inl (.inr he)
      · exact .inl (.inl rfl)
      · exact .inr ⟨he.1, List.forall_mem_cons.mpr ⟨he.2, others⟩⟩
    · rintro ((rfl | he) | ⟨he, others⟩)
      · exact .inr ⟨.inl rfl, first⟩
      · exact .inl he
      · exact .inr ⟨.inr ⟨he, others f (List.mem_cons_self ..)⟩,
          fun g hg => others g (List.mem_cons_of_mem _ hg)⟩

theorem below?_eq_some_iff (l m names : Location) :
    below? l m = some names ↔ names ≠ [] ∧ m = l ++ names := by
  unfold below?
  split
  · rename_i h
    obtain ⟨rest, rfl⟩ := List.isPrefixOf_iff_prefix.mp h.1
    simp only [List.drop_left, Option.some.injEq, List.append_cancel_left_eq]
    constructor
    · rintro rfl
      exact ⟨by simpa using h.2, rfl⟩
    · exact fun hn => hn.2
  · rename_i h
    constructor
    · intro hn
      cases hn
    · rintro ⟨hne, rfl⟩
      exact absurd ⟨List.isPrefixOf_iff_prefix.mpr (List.prefix_append l names), by simpa using hne⟩ h

theorem mem_under_iff (t : FileTree) (l names : Location) (n : Node) :
    (names, n) ∈ t.under l ↔ names ≠ [] ∧ (l ++ names, n) ∈ t.entries := by
  unfold under
  rw [List.mem_filterMap]
  constructor
  · rintro ⟨⟨m, k⟩, hm, hb⟩
    obtain ⟨below, hbelow, same⟩ := Option.map_eq_some_iff.mp hb
    cases same
    obtain ⟨hne, rfl⟩ := (below?_eq_some_iff l m names).mp hbelow
    exact ⟨hne, hm⟩
  · rintro ⟨hne, hm⟩
    refine ⟨_, hm, ?_⟩
    show (below? l (l ++ names)).map (·, n) = some (names, n)
    rw [(below?_eq_some_iff l _ names).mpr ⟨hne, rfl⟩]
    rfl

theorem append_lt_append_iff (l a b : Location) : l ++ a < l ++ b ↔ a < b := by
  induction l with
  | nil => rfl
  | cons s l ih => rw [List.cons_append, List.cons_append, List.cons_lt_cons_self, ih]

theorem under_sorted (t : FileTree) (l : Location) :
    (t.under l).Pairwise fun a b => a.1 < b.1 := by
  unfold under
  refine t.sorted.filterMap _ ?_
  rintro ⟨m, k⟩ ⟨m', k'⟩ before ⟨names, n⟩ hm ⟨names', n'⟩ hm'
  obtain ⟨below, hbelow, e⟩ := Option.map_eq_some_iff.mp hm
  obtain ⟨below', hbelow', e'⟩ := Option.map_eq_some_iff.mp hm'
  cases e
  cases e'
  have hl := ((below?_eq_some_iff l m names).mp hbelow).2
  have hl' := ((below?_eq_some_iff l m' names').mp hbelow').2
  rw [hl, hl'] at before
  exact (append_lt_append_iff l names names').mp before

/-- An entry that is moved takes along what lies below it, and takes the place of what was
there, if nothing lies below that. -/
theorem mem_move_iff_of_bare (t : FileTree) (source target : Location) (hs : source ≠ [])
    (ht : target ≠ []) (n : Node) (hn : (source, n) ∈ t.entries)
    (bare : ∀ e ∈ t.entries, target <+: e.1 → e.1 = target) (e : Location × Node) :
    e ∈ (t.move source target).entries ↔
      (e ∈ t.entries ∧ ¬ source <+: e.1 ∧ e.1 ≠ target) ∨
        ∃ rest, (source ++ rest, e.2) ∈ t.entries ∧ e.1 = target ++ rest := by
  have found : t.get? source = some n := (t.get?_eq_some_iff source hs n).mpr hn
  let moved := (t.under source).map fun e => (target ++ e.1, e.2)
  have keys : ∀ f, f ∈ moved ↔
      ∃ names, names ≠ [] ∧ (source ++ names, f.2) ∈ t.entries ∧ f.1 = target ++ names := by
    intro f
    simp only [moved, List.mem_map, Prod.exists, mem_under_iff]
    constructor
    · rintro ⟨names, k, ⟨hne, hk⟩, rfl⟩
      exact ⟨names, hne, hk, rfl⟩
    · rintro ⟨names, hne, hk, hf⟩
      exact ⟨names, f.2, ⟨hne, hk⟩, by rw [← hf]⟩
  have named : ∀ f ∈ moved, f.1 ≠ [] := by
    intro f hf
    obtain ⟨names, hne, -, hf⟩ := (keys f).mp hf
    simp [hf, hne]
  have distinct : moved.Pairwise fun a b => a.1 ≠ b.1 := by
    rw [List.pairwise_map]
    refine (t.under_sorted source).imp ?_
    intro a b before same
    have equal : a.1 = b.1 := List.append_cancel_left same
    exact List.lt_irrefl _ (equal ▸ before)
  have done : t.move source target = ((t.prune source).insert target n).insertAll moved := by
    rw [move, found]
  rw [done, mem_insertAll_iff moved _ named distinct, mem_insert_iff _ _ ht, mem_prune_iff, keys]
  constructor
  · rintro (⟨names, -, hk, he⟩ | ⟨rfl | ⟨⟨he, outside⟩, elsewhere⟩, -⟩)
    · exact .inr ⟨names, hk, he⟩
    · exact .inr ⟨[], by simpa using hn, by simp⟩
    · exact .inl ⟨he, outside, elsewhere⟩
  · rintro (⟨he, outside, elsewhere⟩ | ⟨rest, hk, he⟩)
    · refine .inr ⟨.inr ⟨⟨he, outside⟩, elsewhere⟩, ?_⟩
      intro f hf same
      obtain ⟨names, -, -, hf⟩ := (keys f).mp hf
      exact elsewhere (bare e he (same ▸ hf ▸ List.prefix_append _ _))
    · by_cases hr : rest = []
      · subst hr
        rw [List.append_nil] at hk he
        have same : e = (target, n) := Prod.ext he (t.node_unique source e.2 n hk hn)
        refine .inr ⟨.inl same, ?_⟩
        intro f hf
        obtain ⟨names, hne, -, hf⟩ := (keys f).mp hf
        rw [hf, he]
        simpa using hne.symm
      · exact .inl ⟨rest, hr, hk, he⟩

theorem mem_move_iff (t : FileTree) (source target : Location) (hs : source ≠ [])
    (ht : target ≠ []) (n : Node) (hn : (source, n) ∈ t.entries)
    (free : ∀ e ∈ t.entries, ¬ target <+: e.1) (e : Location × Node) :
    e ∈ (t.move source target).entries ↔ e ∈ t.entries ∧ ¬ source <+: e.1 ∨
      ∃ rest, (source ++ rest, e.2) ∈ t.entries ∧ e.1 = target ++ rest := by
  rw [t.mem_move_iff_of_bare source target hs ht n hn fun e he above => absurd above (free e he)]
  have elsewhere : e ∈ t.entries → e.1 ≠ target := fun he same =>
    free e he (same ▸ List.prefix_refl _)
  constructor
  · rintro (⟨he, outside, -⟩ | moved)
    · exact .inl ⟨he, outside⟩
    · exact .inr moved
  · rintro (⟨he, outside⟩ | moved)
    · exact .inl ⟨he, outside, elsewhere he⟩
    · exact .inr moved

end SimpleFiles.FileTree
