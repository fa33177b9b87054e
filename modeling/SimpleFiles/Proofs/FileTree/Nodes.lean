import Mathlib.Data.List.Nodup
import Mathlib.Data.List.Perm.Basic
import SimpleFiles.Proofs.FileTree.Lookup
import SimpleFiles.Proofs.FileTree.Walking

/-! What a tree holds, wherever it lies: its files with their contents, its directories and
its links. A move loses only what it is made onto, and leaves every entry in a directory. -/
namespace SimpleFiles.FileTree

def nodes (t : FileTree) : List Node := t.entries.map Prod.snd

theorem filter_location_perm (t : FileTree) (l : Location) (hl : l ≠ []) :
    (t.entries.filter (·.1 = l)).Perm ((t.get? l).toList.map (l, ·)) := by
  have apart : ((t.get? l).toList.map (l, ·)).Nodup := by
    cases t.get? l <;> simp
  rw [List.perm_ext_iff_of_nodup (t.entries_nodup.filter _) apart]
  rintro ⟨m, n⟩
  simp only [List.mem_filter, decide_eq_true_eq, List.mem_map, Option.mem_toList, Prod.mk.injEq]
  constructor
  · rintro ⟨listed, rfl⟩
    exact ⟨n, (t.get?_eq_some_iff m hl n).mpr listed, rfl, rfl⟩
  · rintro ⟨k, found, rfl, rfl⟩
    exact ⟨(t.get?_eq_some_iff l hl k).mp found, rfl⟩

section
variable (t : FileTree) (source target : Location) (hs : source ≠ []) (ht : target ≠ [])
  (n : Node) (hn : (source, n) ∈ t.entries)
  (bare : ∀ e ∈ t.entries, target <+: e.1 → e.1 = target)

def relocated (e : Location × Node) : Location × Node :=
  if source <+: e.1 then (target ++ e.1.drop source.length, e.2) else e

theorem relocated_append (rest : Location) (m : Node) :
    relocated source target (source ++ rest, m) = (target ++ rest, m) := by
  simp [relocated]

theorem relocated_outside (e : Location × Node) (outside : ¬ source <+: e.1) :
    relocated source target e = e := if_neg outside

include bare in
theorem relocated_injective (e f : Location × Node) (he : e ∈ t.entries) (hf : f ∈ t.entries)
    (notThere : e.1 ≠ target) (notThere' : f.1 ≠ target)
    (same : relocated source target e = relocated source target f) : e = f := by
  obtain ⟨l, n⟩ := e
  obtain ⟨m, k⟩ := f
  by_cases inside : source <+: l
  · obtain ⟨rest, rfl⟩ := inside
    rw [relocated_append] at same
    by_cases inside' : source <+: m
    · obtain ⟨rest', rfl⟩ := inside'
      simpa [relocated_append] using same
    · rw [relocated_outside _ _ _ inside'] at same
      obtain ⟨rfl, -⟩ := Prod.mk.inj same
      exact absurd (bare _ hf (List.prefix_append _ _)) notThere'
  · rw [relocated_outside _ _ _ inside] at same
    by_cases inside' : source <+: m
    · obtain ⟨rest', rfl⟩ := inside'
      rw [relocated_append] at same
      obtain ⟨rfl, -⟩ := Prod.mk.inj same
      exact absurd (bare _ he (List.prefix_append _ _)) notThere
    · rwa [relocated_outside _ _ _ inside'] at same

include hs ht hn bare in
theorem move_entries_perm (apart : ¬ source <+: target) :
    (t.move source target).entries.Perm
      ((t.entries.filter (·.1 ≠ target)).map (relocated source target)) := by
  have distinct : ((t.entries.filter (·.1 ≠ target)).map (relocated source target)).Nodup := by
    refine List.Nodup.map_on ?_ (t.entries_nodup.filter _)
    intro e he f hf same
    rw [List.mem_filter, decide_eq_true_eq] at he hf
    exact t.relocated_injective source target bare e f he.1 hf.1 he.2 hf.2 same
  rw [List.perm_ext_iff_of_nodup (t.move source target).entries_nodup distinct]
  rintro ⟨l, m⟩
  rw [t.mem_move_iff_of_bare source target hs ht n hn bare]
  simp only [List.mem_map, List.mem_filter, decide_eq_true_eq]
  constructor
  · rintro (⟨listed, outside, elsewhere⟩ | ⟨rest, listed, rfl⟩)
    · exact ⟨(l, m), ⟨listed, elsewhere⟩, relocated_outside _ _ _ outside⟩
    · refine ⟨_, ⟨listed, ?_⟩, relocated_append source target rest m⟩
      rintro onto
      exact apart (onto ▸ List.prefix_append _ _)
  · rintro ⟨⟨k, m'⟩, ⟨listed, elsewhere⟩, moved⟩
    by_cases inside : source <+: k
    · obtain ⟨rest, rfl⟩ := inside
      rw [relocated_append] at moved
      obtain ⟨rfl, rfl⟩ := Prod.mk.inj moved
      exact .inr ⟨rest, listed, rfl⟩
    · rw [relocated_outside _ _ _ inside] at moved
      obtain ⟨rfl, rfl⟩ := Prod.mk.inj moved
      exact .inl ⟨listed, inside, elsewhere⟩

include hs ht hn bare in
theorem move_nodes_perm (apart : ¬ source <+: target) :
    ((t.move source target).nodes ++ (t.get? target).toList).Perm t.nodes := by
  have moved := (t.move_entries_perm source target hs ht n hn bare apart).map Prod.snd
  have kept : ((t.entries.filter (·.1 ≠ target)).map (relocated source target)).map Prod.snd =
      (t.entries.filter (·.1 ≠ target)).map Prod.snd := by
    rw [List.map_map]
    apply List.map_congr_left
    intro e _
    simp only [Function.comp_apply, relocated]
    split <;> rfl
  have onto := (t.filter_location_perm target ht).map Prod.snd
  have elsewhere : (fun e : Location × Node => !decide (e.1 = target)) =
      fun e => decide (e.1 ≠ target) := by
    funext e
    simp
  have split := (List.filter_append_perm (fun e : Location × Node => decide (e.1 = target))
    t.entries).map Prod.snd
  rw [kept] at moved
  rw [List.map_map] at onto
  simp only [Function.comp_def, List.map_id'] at onto
  rw [elsewhere, List.map_append] at split
  exact ((moved.append onto.symm).trans List.perm_append_comm).trans split

include hs ht hn bare in
theorem isDirectory_move_of_outside (l : Location) (outside : ¬ source <+: l)
    (elsewhere : l ≠ target) (h : t.isDirectory l = true) :
    (t.move source target).isDirectory l = true := by
  by_cases root : l = []
  · subst root
    rfl
  · rw [isDirectory_iff_mem _ l root] at h ⊢
    rw [t.mem_move_iff_of_bare source target hs ht n hn bare]
    exact .inl ⟨h, outside, elsewhere⟩

include hs ht hn bare in
theorem isDirectory_move_of_below (rest : Location) (h : t.isDirectory (source ++ rest) = true) :
    (t.move source target).isDirectory (target ++ rest) = true := by
  rw [isDirectory_iff_mem _ _ (by simp [hs])] at h
  rw [isDirectory_iff_mem _ _ (by simp [ht]), t.mem_move_iff_of_bare source target hs ht n hn bare]
  exact .inr ⟨rest, h, rfl⟩

include hs ht hn bare in
theorem IsClosed.move (closed : t.IsClosed) (outside : ¬ source <+: target.dropLast)
    (parent : t.isDirectory target.dropLast = true) : (t.move source target).IsClosed := by
  have shorter : ∀ l : Location, l ≠ [] → l.dropLast ≠ l := by
    intro l filled same
    have long := congrArg List.length same
    have := List.length_pos_of_ne_nil filled
    rw [List.length_dropLast] at long
    omega
  rintro ⟨l, m⟩ he
  rcases (t.mem_move_iff_of_bare source target hs ht n hn bare (l, m)).mp he with
    ⟨listed, notBelow, elsewhere⟩ | ⟨rest, listed, rfl⟩
  · obtain ⟨filled, above⟩ := closed _ listed
    refine ⟨filled, t.isDirectory_move_of_outside source target hs ht n hn bare _ ?_ ?_ above⟩
    · exact fun below => notBelow (below.trans (List.dropLast_prefix l))
    · rintro onto
      exact elsewhere (bare _ listed (onto ▸ List.dropLast_prefix l))
  · refine ⟨by simp [ht], ?_⟩
    rcases List.eq_nil_or_concat' rest with rfl | ⟨init, s, rfl⟩
    · rw [List.append_nil]
      exact t.isDirectory_move_of_outside source target hs ht n hn bare _ outside
        (shorter target ht) parent
    · obtain ⟨-, above⟩ := closed _ listed
      rw [← List.append_assoc, List.dropLast_concat] at above ⊢
      exact t.isDirectory_move_of_below source target hs ht n hn bare init above

end

theorem IsClosed.bare {t : FileTree} (closed : t.IsClosed) (l : Location)
    (empty : t.isDirectory l = true → t.under l = []) :
    ∀ e ∈ t.entries, l <+: e.1 → e.1 = l := by
  rintro ⟨m, n⟩ he ⟨names, rfl⟩
  cases names with
  | nil => simp
  | cons s rest =>
    have there := t.contains_above closed _ (l ++ [s]) (t.contains_of_mem closed _ he) (by simp)
    have none := empty (t.isDirectory_of_contains closed l s there)
    have inside := (t.mem_under_iff l (s :: rest) n).mpr ⟨by simp, he⟩
    rw [none] at inside
    cases inside

end SimpleFiles.FileTree
