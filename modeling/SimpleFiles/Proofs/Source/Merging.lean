import Mathlib.Data.List.MinMax
import SimpleFiles.Proofs.Source.Spans

/-! Merging spans. However the brackets stand, what comes of some spans is their hull: it opens at
the first of the least starts and closes at the first of the greatest stops. Spans of one text have
the same hull in every order. -/
namespace SimpleFiles

/-! The first of the greatest elements. -/

section
variable {α β : Type} [LinearOrder β] {f : α → β} {l m : List α} {a b : α}

theorem argmax_concat_of_eq_some (c : α) (ha : l.argmax f = some a) :
    (l ++ [c]).argmax f = some (if f a < f c then c else a) := by
  rw [List.argmax_concat, ha]
  exact (apply_ite some _ _ _).symm

theorem argmax_append (ha : l.argmax f = some a) (hb : m.argmax f = some b) :
    (l ++ m).argmax f = some (if f a < f b then b else a) := by
  induction m using List.reverseRecOn generalizing b with
  | nil => cases hb
  | append_singleton m c ih =>
    rw [← List.append_assoc]
    cases hm : m.argmax f with
    | none =>
      obtain rfl := List.argmax_eq_none.mp hm
      cases hb
      rw [List.append_nil, argmax_concat_of_eq_some c ha]
    | some d =>
      rw [argmax_concat_of_eq_some c hm, Option.some.injEq] at hb
      rw [argmax_concat_of_eq_some c (ih hm), ← hb]
      grind

theorem argmin_append (ha : l.argmin f = some a) (hb : m.argmin f = some b) :
    (l ++ m).argmin f = some (if f b < f a then b else a) :=
  argmax_append (β := βᵒᵈ) ha hb

end

namespace Span

/-- Spans to be merged two at a time. -/
inductive Bracketing where
  | one (s : Span)
  | two (left right : Bracketing)

namespace Bracketing

def spans : Bracketing → List Span
  | one s => [s]
  | two left right => left.spans ++ right.spans

def merged : Bracketing → Span
  | one s => s
  | two left right => left.merged.merge right.merged

end Bracketing

/-- A span opens where the first of those with the least start does, and closes where the first of
those with the greatest stop does. -/
structure IsHull (spans : List Span) (s : Span) : Prop where
  opens : (spans.argmin start).map first = some s.first
  closes : (spans.argmax stop).map last = some s.last

/-- Equal offsets have equal lines and columns. -/
def Coherent (spans : List Span) : Prop :=
  ∀ a ∈ spans, ∀ b ∈ spans,
    (a.start = b.start → a.first = b.first) ∧ (a.stop = b.stop → a.last = b.last)

theorem eq_of_ends {s t : Span} (first : s.first = t.first) (last : s.last = t.last) : s = t := by
  obtain ⟨start, startLine, startColumn⟩ := Source.Position.mk.inj first
  obtain ⟨stop, stopLine, stopColumn⟩ := Source.Position.mk.inj last
  cases s
  cases t
  simp_all

theorem first_merge (a b : Span) :
    (a.merge b).first = if b.start < a.start then b.first else a.first := by
  by_cases later : a.start ≤ b.start
  · simp [first, merge, later]
  · simp [first, merge, later, Nat.lt_of_not_le later, Nat.le_of_not_le later]

theorem last_merge (a b : Span) :
    (a.merge b).last = if a.stop < b.stop then b.last else a.last := by
  by_cases later : b.stop ≤ a.stop
  · simp [last, merge, later]
  · simp [last, merge, later, Nat.lt_of_not_le later, Nat.le_of_not_le later]

namespace IsHull

variable {spans others : List Span} {s t : Span}

theorem unique (hs : IsHull spans s) (ht : IsHull spans t) : s = t :=
  eq_of_ends (Option.some.inj (hs.opens.symm.trans ht.opens))
    (Option.some.inj (hs.closes.symm.trans ht.closes))

theorem one (s : Span) : IsHull [s] s := ⟨rfl, rfl⟩

theorem merge (hs : IsHull spans s) (ht : IsHull others t) :
    IsHull (spans ++ others) (s.merge t) := by
  obtain ⟨a, least, opens⟩ := Option.map_eq_some_iff.mp hs.opens
  obtain ⟨b, least', opens'⟩ := Option.map_eq_some_iff.mp ht.opens
  obtain ⟨c, greatest, closes⟩ := Option.map_eq_some_iff.mp hs.closes
  obtain ⟨d, greatest', closes'⟩ := Option.map_eq_some_iff.mp ht.closes
  have start : a.start = s.start ∧ b.start = t.start :=
    ⟨congrArg Source.Position.offset opens, congrArg Source.Position.offset opens'⟩
  have stop : c.stop = s.stop ∧ d.stop = t.stop :=
    ⟨congrArg Source.Position.offset closes, congrArg Source.Position.offset closes'⟩
  constructor
  · rw [argmin_append least least', Option.map_some, apply_ite first, first_merge, start.1, start.2,
      opens, opens']
  · rw [argmax_append greatest greatest', Option.map_some, apply_ite last, last_merge, stop.1,
      stop.2, closes, closes']

theorem of_same (coherent : Coherent spans) (same : ∀ a, a ∈ others ↔ a ∈ spans)
    (hs : IsHull spans s) (ht : IsHull others t) : s = t := by
  obtain ⟨a, least, opens⟩ := Option.map_eq_some_iff.mp hs.opens
  obtain ⟨b, least', opens'⟩ := Option.map_eq_some_iff.mp ht.opens
  obtain ⟨c, greatest, closes⟩ := Option.map_eq_some_iff.mp hs.closes
  obtain ⟨d, greatest', closes'⟩ := Option.map_eq_some_iff.mp ht.closes
  have inside {x : Span} : x ∈ others → x ∈ spans := (same x).mp
  have start : a.start = b.start := Nat.le_antisymm
    (List.le_of_mem_argmin (inside (List.argmin_mem least')) least)
    (List.le_of_mem_argmin ((same a).mpr (List.argmin_mem least)) least')
  have stop : c.stop = d.stop := Nat.le_antisymm
    (List.le_of_mem_argmax ((same c).mpr (List.argmax_mem greatest)) greatest')
    (List.le_of_mem_argmax (inside (List.argmax_mem greatest')) greatest)
  have first := (coherent a (List.argmin_mem least) b (inside (List.argmin_mem least'))).1 start
  have last := (coherent c (List.argmax_mem greatest) d (inside (List.argmax_mem greatest'))).2 stop
  exact eq_of_ends (opens.symm.trans (first.trans opens'))
    (closes.symm.trans (last.trans closes'))

end IsHull

theorem isHull_merged (t : Bracketing) : IsHull t.spans t.merged := by
  induction t with
  | one s => exact .one s
  | two left right ihl ihr => exact ihl.merge ihr

theorem isHull_mergeAll {spans : List Span} (filled : spans ≠ []) :
    IsHull spans (mergeAll spans) := by
  induction spans using List.reverseRecOn with
  | nil => exact absurd rfl filled
  | append_singleton spans s ih =>
    cases spans with
    | nil => exact .one s
    | cons first rest =>
      have step : mergeAll (first :: rest ++ [s]) = (mergeAll (first :: rest)).merge s :=
        List.foldl_concat ..
      rw [step]
      exact (ih (List.cons_ne_nil first rest)).merge (.one s)

theorem Bracketing.spans_ne_nil (t : Bracketing) : t.spans ≠ [] := by
  induction t with
  | one s => exact List.cons_ne_nil s []
  | two left right ihl ihr => exact List.append_ne_nil_of_left_ne_nil ihl _

theorem Bracketing.merged_eq_mergeAll (t : Bracketing) : t.merged = mergeAll t.spans :=
  (isHull_merged t).unique (isHull_mergeAll t.spans_ne_nil)

theorem merge_assoc (a b c : Span) : (a.merge b).merge c = a.merge (b.merge c) :=
  (Bracketing.merged_eq_mergeAll (.two (.two (.one a) (.one b)) (.one c))).trans
    (Bracketing.merged_eq_mergeAll (.two (.one a) (.two (.one b) (.one c)))).symm

theorem mergeAll_eq_of_same {spans others : List Span} (coherent : Coherent spans)
    (same : ∀ a, a ∈ others ↔ a ∈ spans) : mergeAll others = mergeAll spans := by
  by_cases filled : spans = []
  · subst filled
    rw [List.eq_nil_iff_forall_not_mem.mpr fun a inside => nomatch (same a).mp inside]
  · have filled' : others ≠ [] := by
      obtain ⟨a, inside⟩ := List.exists_mem_of_ne_nil _ filled
      exact List.ne_nil_of_mem ((same a).mpr inside)
    exact ((isHull_mergeAll filled).of_same coherent same (isHull_mergeAll filled')).symm

theorem coherent_of_isPlaced {source : String} {spans : List Span}
    (placed : ∀ s ∈ spans, Source.IsPlaced source s) : Coherent spans := by
  intro a ha b hb
  constructor
  · intro same
    rw [← (placed a ha).first, ← (placed b hb).first, same]
  · intro same
    rw [← (placed a ha).last, ← (placed b hb).last, same]

/-- Merging is associative and idempotent, and so it does not matter for spans how the brackets
stand; what comes of them is their hull. For spans with equal places at equal offsets it is
commutative, too: spans of a parsed program may be merged in any order, and any of them twice. -/
theorem merging_gives_hull :
    (∀ a b c : Span, (a.merge b).merge c = a.merge (b.merge c)) ∧
    (∀ a : Span, a.merge a = a) ∧
    (∀ t : Bracketing, t.merged = mergeAll t.spans) ∧
    (∀ spans ≠ [], ∀ s, IsHull spans s ↔ s = mergeAll spans) ∧
    (∀ a b, Coherent [a, b] → a.merge b = b.merge a) ∧
    ∀ source p, Source.parse source = .ok p → Coherent p.spans ∧
      ∀ spans others, spans ⊆ p.spans → (∀ s, s ∈ others ↔ s ∈ spans) →
        mergeAll others = mergeAll spans := by
  refine ⟨merge_assoc, ?_, Bracketing.merged_eq_mergeAll, ?_, ?_, ?_⟩
  · intro a
    simp [merge]
  · intro spans filled s
    constructor
    · exact fun hull => hull.unique (isHull_mergeAll filled)
    · rintro rfl
      exact isHull_mergeAll filled
  · intro a b coherent
    have same : ∀ s, s ∈ [b, a] ↔ s ∈ [a, b] := by
      intro s
      simp [or_comm]
    exact (mergeAll_eq_of_same coherent same).symm
  · intro source p parsed
    have coherent := coherent_of_isPlaced (Source.isPlaced_of_parse parsed)
    refine ⟨coherent, fun spans others inside same => mergeAll_eq_of_same ?_ same⟩
    exact fun a ha b hb => coherent a (inside ha) b (inside hb)

theorem merging_gives_hull_accented :
    let a : Span := ⟨20, 35, 0, 20, 1, 2⟩
    let b : Span := ⟨36, 50, 1, 3, 1, 17⟩
    Source.parse Source.accented = .ok Source.accentedProgram ∧
      [b, a, b] ⊆ Source.accentedProgram.spans ∧ Coherent [a, b] ∧ a.merge b = b.merge a ∧
      mergeAll [a, b] = mergeAll [b, a, b] ∧ IsHull [b, a, b] ⟨20, 50, 0, 20, 1, 17⟩ := by
  intro a b
  have parsed : Source.parse Source.accented = .ok Source.accentedProgram := by decide +kernel
  have inside : [b, a, b] ⊆ Source.accentedProgram.spans := by decide
  obtain ⟨-, -, -, hull, commutes, program⟩ := merging_gives_hull
  obtain ⟨coherent, anyOrder⟩ := program _ _ parsed
  have both : Coherent [a, b] := by
    intro x hx y hy
    exact coherent x (inside (List.mem_cons_of_mem b hx)) y (inside (List.mem_cons_of_mem b hy))
  exact ⟨parsed, inside, both, commutes a b both, anyOrder _ _ inside (by simp [or_comm]),
    (hull [b, a, b] (by simp) _).mpr (by decide)⟩

example :
    merge ⟨4, 5, 0, 4, 0, 5⟩ ⟨4, 5, 1, 0, 1, 1⟩ ≠ merge ⟨4, 5, 1, 0, 1, 1⟩ ⟨4, 5, 0, 4, 0, 5⟩ := by
  decide

end Span
end SimpleFiles
