import SimpleFiles.Proofs.Source.Spans
import SimpleFiles.Source.Building

/-! Trees against parsers. Every node covers what its span cuts out of the text, and a
phrase reads where the parser of the same part does, to the same place; the operators of
phrases carry this from the parts of a phrase to the phrase. -/
namespace SimpleFiles.Source

open SimpleFiles.Source.Parser

/-! What the phrases read. -/

theorem Binding.exists_skip_passes (b : Binding) (c : Cursor) :
    ∃ gap, Passes c gap (b.skip c) := by
  cases b with
  | loose =>
    obtain ⟨gap, -, hpass⟩ := exists_gap_passes c
    exact ⟨gap, hpass⟩
  | tight => exact ⟨[], passes_nil c⟩
  | solid => exact ⟨[], passes_nil c⟩

namespace Phrase

theorem read_literal (word : String) (b : Binding) (c : Cursor) :
    (literal word).read b c = ((Parser.literal word).run c).map fun (_, next) => ([], next) := by
  simp only [read, Parser.literal, silent]
  split <;> rfl

theorem literal_read_iff (word : String) (b : Binding) (c next : Cursor) (trees : List Tree) :
    (literal word).read b c = some (trees, next) ↔ trees = [] ∧ Passes c word.toList next := by
  simp only [read_literal, Option.map_eq_some_iff, Prod.exists, exists_unit, literal_run_iff,
    Prod.mk.injEq]
  constructor
  · rintro ⟨_, hpass, rfl, rfl⟩
    exact ⟨rfl, hpass⟩
  · rintro ⟨rfl, hpass⟩
    exact ⟨next, hpass, rfl, rfl⟩

theorem char_read_iff (test : Char → Bool) (b : Binding) (c next : Cursor) (trees : List Tree) :
    (char test).read b c = some (trees, next) ↔
      trees = [] ∧ ∃ a, test a ∧ Passes c [a] next := by
  simp only [read]
  cases hrest : c.rest with
  | nil =>
    simp only [List.head?_nil, Option.any_none, Bool.false_eq_true, ↓reduceIte, reduceCtorEq,
      false_iff]
    rintro ⟨-, a, -, hpass⟩
    simp [hpass.text] at hrest
  | cons a rest =>
    have hhere : [a] <+: c.rest := ⟨rest, hrest.symm⟩
    have hmove (next : Cursor) : c.advance 1 = next ↔ Passes c [a] next :=
      advance_eq_iff c next hhere
    have hhead {a' : Char} (hpass : Passes c [a'] next) : a' = a := by
      have htext := hpass.text.symm.trans hrest
      simpa using congrArg List.head? htext
    by_cases ha : test a
    · simp only [List.head?_cons, Option.any_some, ha, ↓reduceIte, Option.some.injEq,
        Prod.mk.injEq, hmove]
      constructor
      · rintro ⟨rfl, hpass⟩
        exact ⟨rfl, a, ha, hpass⟩
      · rintro ⟨rfl, a', -, hpass⟩
        exact ⟨rfl, hhead hpass ▸ hpass⟩
    · simp only [List.head?_cons, Option.any_some, ha, Bool.false_eq_true, ↓reduceIte,
        reduceCtorEq, false_iff]
      rintro ⟨-, a', ha', hpass⟩
      exact ha (hhead hpass ▸ ha')

theorem both_read_iff (p q : Phrase) (b : Binding) (c next : Cursor) (trees : List Tree) :
    (both p q).read b c = some (trees, next) ↔ ∃ before mid after,
      p.read b c = some (before, mid) ∧ q.read b (b.skip mid) = some (after, next) ∧
        trees = before ++ after := by
  simp only [read, bind, Option.bind_eq_some_iff, Prod.exists, pure, Option.some.injEq,
    Prod.mk.injEq]
  constructor
  · rintro ⟨before, mid, hp, after, next, hq, rfl, rfl⟩
    exact ⟨before, mid, after, hp, hq, rfl⟩
  · rintro ⟨before, mid, after, hp, hq, rfl⟩
    exact ⟨before, mid, hp, after, next, hq, rfl, rfl⟩

theorem many_read_iff (p : Phrase) (b : Binding) (c next : Cursor) (trees : List Tree) :
    (many p).read b c = some (trees, next) ↔
      (p.read b c = none ∧ trees = [] ∧ c = next) ∨ ∃ first mid others,
        p.read b c = some (first, mid) ∧
          manyRun (fun c => p.read b (b.skip c)) mid = (others, next) ∧
          trees = first ++ others.flatten := by
  simp only [read]
  cases p.read b c with
  | none => simp [eq_comm]
  | some r =>
    obtain ⟨first, mid⟩ := r
    simp only [reduceCtorEq, false_and, false_or, Option.some.injEq, Prod.mk.injEq]
    constructor
    · rintro ⟨rfl, rfl⟩
      exact ⟨first, mid, _, ⟨rfl, rfl⟩, rfl, rfl⟩
    · rintro ⟨_, _, others, ⟨rfl, rfl⟩, hmany, rfl⟩
      rw [hmany]
      exact ⟨rfl, rfl⟩

theorem named_read_iff (tag : Tag) (inside : Option Binding) (p : Phrase) (b : Binding)
    (c next : Cursor) (trees : List Tree) :
    (named tag inside p).read b c = some (trees, next) ↔ ∃ inner,
      p.read (inside.getD b) c = some (inner, next) ∧ trees = if b = .solid then [] else
        [.node tag (c.textTo next) (c.position.spanTo next.position) inner] := by
  simp only [read, bind, Option.bind_eq_some_iff, Prod.exists, pure]
  constructor
  · rintro ⟨inner, mid, hp, h⟩
    split at h
    · next hb =>
      cases h
      exact ⟨inner, hp, by rw [if_pos hb]⟩
    · next hb =>
      cases h
      exact ⟨inner, hp, by rw [if_neg hb]⟩
  · rintro ⟨inner, hp, rfl⟩
    refine ⟨inner, next, hp, ?_⟩
    split <;> rfl

/-- The phrase never reads nothing. -/
def consumes : Phrase → Bool
  | literal word => word ≠ ""
  | char _ => true
  | both p q => p.consumes || q.consumes
  | either p q => p.consumes && q.consumes
  | named _ _ p => p.consumes
  | _ => false

theorem exists_passes_of_chain {p : Phrase} {b : Binding} {c next : Cursor}
    {trees : List (List Tree)} (h : Chain (silent fun c => p.read b (b.skip c)) c trees next)
    (hp : ∀ c trees next, p.read b c = some (trees, next) → ∃ chars, Passes c chars next) :
    ∃ chars, Passes c chars next := by
  induction h with
  | nil => exact ⟨[], passes_nil _⟩
  | @cons trees _ c mid _ first _ _ ih =>
    obtain ⟨gap, hskip⟩ := b.exists_skip_passes c
    obtain ⟨chars, hfirst⟩ := hp _ _ _ first
    obtain ⟨others, hrest⟩ := ih
    exact ⟨_, (hskip.append hfirst).append hrest⟩

theorem chain_of_manyRun {p : Phrase} {b : Binding} {c next : Cursor} {trees : List (List Tree)}
    (h : manyRun (fun c => p.read b (b.skip c)) c = (trees, next)) :
    Chain (silent fun c => p.read b (b.skip c)) c trees next :=
  many_run_chain (congrArg some h)

theorem exists_passes {p : Phrase} {b : Binding} {c next : Cursor} {trees : List Tree}
    (h : p.read b c = some (trees, next)) :
    ∃ chars, Passes c chars next ∧ (p.consumes → chars ≠ []) := by
  induction p generalizing b c next trees with
  | start =>
    simp only [read, Option.ite_none_right_eq_some, Option.some.injEq, Prod.mk.injEq] at h
    obtain ⟨-, -, rfl⟩ := h
    exact ⟨[], passes_nil c, nofun⟩
  | stop =>
    simp only [read, Option.ite_none_right_eq_some, Option.some.injEq, Prod.mk.injEq] at h
    obtain ⟨-, -, rfl⟩ := h
    exact ⟨[], passes_nil c, nofun⟩
  | literal word =>
    obtain ⟨-, hpass⟩ := (literal_read_iff word b c next trees).1 h
    refine ⟨_, hpass, fun hword => ?_⟩
    exact String.toList_eq_nil_iff.not.2 (of_decide_eq_true hword)
  | char test =>
    obtain ⟨-, a, -, hpass⟩ := (char_read_iff test b c next trees).1 h
    exact ⟨[a], hpass, by simp⟩
  | both p q ihp ihq =>
    obtain ⟨before, mid, after, hp, hq, -⟩ := (both_read_iff p q b c next trees).1 h
    obtain ⟨as, hfirst, hconsumes⟩ := ihp hp
    obtain ⟨gap, hskip⟩ := b.exists_skip_passes mid
    obtain ⟨bs, hlast, hconsumes'⟩ := ihq hq
    refine ⟨_, (hfirst.append hskip).append hlast, fun hpq => ?_⟩
    rcases Bool.or_eq_true_iff.1 hpq with hp | hq
    · simp [hconsumes hp]
    · simp [hconsumes' hq]
  | either p q ihp ihq =>
    rw [read, Option.or_eq_some_iff] at h
    rcases h with hp | ⟨-, hq⟩
    · obtain ⟨as, hpass, hconsumes⟩ := ihp hp
      exact ⟨as, hpass, fun hpq => hconsumes (Bool.and_eq_true_iff.1 hpq).1⟩
    · obtain ⟨as, hpass, hconsumes⟩ := ihq hq
      exact ⟨as, hpass, fun hpq => hconsumes (Bool.and_eq_true_iff.1 hpq).2⟩
  | many p ih =>
    rcases (many_read_iff p b c next trees).1 h with ⟨-, -, rfl⟩ | ⟨first, mid, others, hp, hmany, -⟩
    · exact ⟨[], passes_nil c, nofun⟩
    · obtain ⟨as, hfirst, -⟩ := ih hp
      obtain ⟨bs, hrest⟩ := exists_passes_of_chain (chain_of_manyRun hmany)
        fun _ _ _ hrun => (ih hrun).imp fun _ hpass => hpass.1
      exact ⟨_, hfirst.append hrest, nofun⟩
  | absent p ih =>
    simp only [read, Option.ite_none_left_eq_some, Option.some.injEq, Prod.mk.injEq] at h
    obtain ⟨-, -, rfl⟩ := h
    exact ⟨[], passes_nil c, nofun⟩
  | named tag inside p ih =>
    obtain ⟨inner, hp, -⟩ := (named_read_iff tag inside p b c next trees).1 h
    exact ih hp

theorem length_lt_of_read {p : Phrase} {b : Binding} {c next : Cursor} {trees : List Tree}
    (hp : p.consumes) (h : p.read b c = some (trees, next)) :
    next.rest.length < c.rest.length := by
  obtain ⟨chars, hpass, hne⟩ := exists_passes h
  have hpos := List.length_pos_iff.2 (hne hp)
  rw [hpass.text, List.length_append]
  omega

end Phrase

/-! Nodes and the text. -/

/-- A node covers what its span cuts out of the text, and so do all nodes in it. -/
inductive Tree.CutFrom (source : String) : Tree → Prop
  | node {tag : Tag} {text : String} {span : Span} {inner : List Tree}
      (slice_eq : slice source span = text) (placed : IsPlaced source span)
      (parts : ∀ t ∈ inner, CutFrom source t) : CutFrom source (.node tag text span inner)

theorem textTo_eq_of_passes {c next : Cursor} {chars : List Char} (h : Passes c chars next) :
    c.textTo next = .ofList chars := by
  have hlength : (chars ++ next.rest).length - next.rest.length = chars.length := by simp
  rw [Cursor.textTo, h.text, hlength, List.take_left]

namespace Phrase

variable {source : String}

theorem cutFrom_of_chain {p : Phrase} {b : Binding} {c next : Cursor} {trees : List (List Tree)}
    {before : List Char} (h : Chain (silent fun c => p.read b (b.skip c)) c trees next)
    (hc : c.Stands source before)
    (hp : ∀ c trees next before, c.Stands source before → p.read b c = some (trees, next) →
      ∀ t ∈ trees, t.CutFrom source) : ∀ t ∈ trees.flatten, t.CutFrom source := by
  induction h generalizing before with
  | nil => exact nofun
  | @cons trees _ c mid _ first _ _ ih =>
    obtain ⟨gap, hskip⟩ := b.exists_skip_passes c
    have hfirst : p.read b (b.skip c) = some (trees, mid) := first
    obtain ⟨chars, hpass, -⟩ := exists_passes hfirst
    have hmid := (hc.passes hskip).passes hpass
    rw [List.flatten_cons, List.forall_mem_append]
    exact ⟨hp _ _ _ _ (hc.passes hskip) hfirst, ih hmid⟩

theorem cutFrom_of_read {p : Phrase} {b : Binding} {c next : Cursor} {trees : List Tree}
    {before : List Char} (hc : c.Stands source before) (h : p.read b c = some (trees, next)) :
    ∀ t ∈ trees, t.CutFrom source := by
  induction p generalizing b c next trees before with
  | start =>
    simp only [read, Option.ite_none_right_eq_some, Option.some.injEq, Prod.mk.injEq] at h
    obtain ⟨-, rfl, -⟩ := h
    exact nofun
  | stop =>
    simp only [read, Option.ite_none_right_eq_some, Option.some.injEq, Prod.mk.injEq] at h
    obtain ⟨-, rfl, -⟩ := h
    exact nofun
  | literal word =>
    obtain ⟨rfl, -⟩ := (literal_read_iff word b c next trees).1 h
    exact nofun
  | char test =>
    obtain ⟨rfl, -⟩ := (char_read_iff test b c next trees).1 h
    exact nofun
  | both p q ihp ihq =>
    obtain ⟨first, mid, last, hp, hq, rfl⟩ := (both_read_iff p q b c next trees).1 h
    obtain ⟨chars, hpass, -⟩ := exists_passes hp
    obtain ⟨gap, hskip⟩ := b.exists_skip_passes mid
    rw [List.forall_mem_append]
    exact ⟨ihp hc hp, ihq ((hc.passes hpass).passes hskip) hq⟩
  | either p q ihp ihq =>
    rw [read, Option.or_eq_some_iff] at h
    rcases h with hp | ⟨-, hq⟩
    · exact ihp hc hp
    · exact ihq hc hq
  | many p ih =>
    rcases (many_read_iff p b c next trees).1 h with ⟨-, rfl, -⟩ | ⟨first, mid, others, hp, hmany, rfl⟩
    · exact nofun
    · obtain ⟨chars, hpass, -⟩ := exists_passes hp
      rw [List.forall_mem_append]
      exact ⟨ih hc hp, cutFrom_of_chain (chain_of_manyRun hmany) (hc.passes hpass)
        fun _ _ _ _ hc hrun => ih hc hrun⟩
  | absent p ih =>
    simp only [read, Option.ite_none_left_eq_some, Option.some.injEq, Prod.mk.injEq] at h
    obtain ⟨-, rfl, -⟩ := h
    exact nofun
  | named tag inside p ih =>
    obtain ⟨inner, hp, rfl⟩ := (named_read_iff tag inside p b c next trees).1 h
    obtain ⟨chars, hpass, -⟩ := exists_passes hp
    have hmarks := hc.marks hpass
    split
    · exact nofun
    · rw [List.forall_mem_singleton]
      refine .node ?_ hmarks.isPlaced (ih hc hp)
      rw [hmarks.slice_eq, textTo_eq_of_passes hpass]

end Phrase
end SimpleFiles.Source
