import SimpleFiles.Proofs.Source.Trees

/-! Phrases against parsers. A phrase mirrors a parser when both read at the same
cursors, to the same place, and the nodes that the phrase leaves stand for the value of
the parser. Every operator of phrases keeps this, and so the phrases of the grammar
mirror its parsers. -/
namespace SimpleFiles.Source

open SimpleFiles.Source.Parser

/-- Neither reads, or both reach the same place, with nodes that stand for the value. -/
inductive Agree (R : List Tree → α → Prop) :
    Option (List Tree × Cursor) → Option (α × Cursor) → Prop
  | none : Agree R none none
  | some {trees : List Tree} {a : α} {next : Cursor} (stand : R trees a) :
      Agree R (some (trees, next)) (some (a, next))

def Mirrors (b : Binding) (p : Phrase) (q : Parser α) (R : List Tree → α → Prop) : Prop :=
  ∀ c, Agree R (p.read b c) (q.run c)

def MirrorsAfter (b : Binding) (p : Phrase) (q : Parser α) (R : List Tree → α → Prop) : Prop :=
  ∀ c, Agree R (p.read b (b.skip c)) (q.run c)

def One (N : Tree → α → Prop) (trees : List Tree) (a : α) : Prop := ∃ t, trees = [t] ∧ N t a

def Bare (trees : List Tree) (_ : α) : Prop := trees = []

namespace Agree

variable {R : List Tree → α → Prop} {phrase : Option (List Tree × Cursor)}
  {parser : Option (α × Cursor)}

theorem inv (h : Agree R phrase parser) : (phrase = .none ∧ parser = .none) ∨
    ∃ trees a next, R trees a ∧ phrase = .some (trees, next) ∧ parser = .some (a, next) := by
  cases h with
  | none => exact .inl ⟨rfl, rfl⟩
  | some stand => exact .inr ⟨_, _, _, stand, rfl, rfl⟩

theorem bind {S : List Tree → β → Prop}
    {f : List Tree × Cursor → Option (List Tree × Cursor)} {g : α × Cursor → Option (β × Cursor)}
    (h : Agree R phrase parser)
    (k : ∀ trees a next, R trees a → Agree S (f (trees, next)) (g (a, next))) :
    Agree S (phrase.bind f) (parser.bind g) := by
  cases h with
  | none => exact .none
  | some stand => exact k _ _ _ stand

theorem weaken {R' : List Tree → α → Prop} (h : Agree R phrase parser)
    (k : ∀ trees a, R trees a → R' trees a) : Agree R' phrase parser := by
  cases h with
  | none => exact .none
  | some stand => exact .some (k _ _ stand)

theorem named {b : Binding} {p : Phrase} {q : Parser α} {c : Cursor} (tag : Tag) (symbol : Symbol)
    (inside : Option Binding) (hb : b ≠ .solid) (h : Agree R (p.read (inside.getD b) c) (q.run c)) :
    Agree (One fun t (a, span) => ∃ text inner, t = .node tag text span inner ∧ R inner a)
      ((Phrase.named tag inside p).read b c) ((spanned (Parser.named symbol q)).run c) := by
  rw [Phrase.read, spanned_run, run_named]
  rcases h.inv with ⟨hp, hq⟩ | ⟨inner, a, next, stand, hp, hq⟩
  · rw [hp, hq]
    exact .none
  · rw [hp, hq]
    simp only [Bind.bind, Option.bind_some, if_neg hb, Option.map_some, pure]
    exact .some ⟨_, rfl, _, inner, rfl, stand⟩

theorem prepend {before : List Tree} (h : Agree (fun trees a => R (before ++ trees) a) phrase parser) :
    Agree R (phrase.bind fun (after, next) => .some (before ++ after, next)) parser := by
  cases h with
  | none => exact .none
  | some stand => exact .some stand

end Agree

namespace Mirrors

variable {b : Binding} {p p' : Phrase} {q q' : Parser α} {R R' : List Tree → α → Prop}

theorem both {f : α → Parser β} {S : List Tree → β → Prop} (h : Mirrors b p q R)
    (k : ∀ trees a, R trees a → MirrorsAfter b p' (f a) fun others d => S (trees ++ others) d) :
    Mirrors b (.both p p') (q >>= f) S := fun c =>
  (h c).bind fun trees a next stand => (k trees a stand next).prepend

theorem either (h : Mirrors b p q R) (h' : Mirrors b p' q' R) :
    Mirrors b (.either p p') (q.orElse q') R := by
  intro c
  rw [Phrase.read, run_orElse]
  rcases (h c).inv with ⟨hp, hq⟩ | ⟨trees, a, next, stand, hp, hq⟩
  · rw [hp, hq]
    exact h' c
  · rw [hp, hq]
    exact .some stand

theorem finish {f : α → Parser β} {S : List Tree → β → Prop} (h : Mirrors b p q R)
    (k : ∀ trees a, R trees a → ∃ d, f a = pure d ∧ S trees d) : Mirrors b p (q >>= f) S := by
  intro c
  rcases (h c).inv with ⟨hp, hq⟩ | ⟨trees, a, next, stand, hp, hq⟩
  · rw [run_bind, hp, hq]
    exact .none
  · obtain ⟨d, hd, hs⟩ := k trees a stand
    have hrun : (q >>= f).run c = some (d, next) :=
      (bind_run_iff q f c _).2 ⟨a, next, hq, by rw [hd, run_pure]⟩
    rw [hp, hrun]
    exact .some hs

theorem weaken (h : Mirrors b p q R) (k : ∀ trees a, R trees a → R' trees a) :
    Mirrors b p q R' := fun c => (h c).weaken k

theorem unspanned {N : Tree → α × Span → Prop} (h : Mirrors b p (spanned q) (One N)) :
    Mirrors b p q (One fun t a => ∃ span, N t (a, span)) := by
  intro c
  have hc := h c
  rw [spanned_run] at hc
  cases hq : q.run c with
  | none =>
    rw [hq] at hc
    rcases hc.inv with ⟨hp, -⟩ | ⟨_, _, _, -, -, hsome⟩
    · rw [hp]
      exact .none
    · contradiction
  | some r =>
    rw [hq] at hc
    rcases hc.inv with ⟨-, hnone⟩ | ⟨_, _, _, ⟨t, rfl, stand⟩, hp, ⟨⟩⟩
    · contradiction
    · rw [hp]
      exact .some ⟨t, rfl, _, stand⟩

theorem token (h : Mirrors .loose p q R) : MirrorsAfter .loose p (Grammar.token q) R :=
  fun c => h c.skipSpaces

theorem token_bind {f : α → Parser β} {S : List Tree → β → Prop}
    (h : Mirrors .loose p (q >>= f) S) : MirrorsAfter .loose p (Grammar.token q >>= f) S :=
  fun c => h c.skipSpaces

theorem tight (h : Mirrors .tight p q R) : MirrorsAfter .tight p q R := h

theorem solid (h : Mirrors .solid p q R) : MirrorsAfter .solid p q R := h

theorem named (tag : Tag) (symbol : Symbol) (inside : Option Binding) (hb : b ≠ .solid)
    (h : Mirrors (inside.getD b) p q R) :
    Mirrors b (.named tag inside p) (spanned (Parser.named symbol q))
      (One fun t (a, span) => ∃ text inner, t = .node tag text span inner ∧ R inner a) :=
  fun c => (h c).named tag symbol inside hb

theorem leaf {tag : Tag} (hb : b ≠ .solid) (h : Mirrors .solid p q Bare) (shown : α → String)
    (hq : ∀ c a next, q.run c = some (a, next) → Passes c (shown a).toList next) :
    Mirrors b (.named tag (some .solid) p) (spanned q)
      (One fun t (a, span) => t = .node tag (shown a) span []) := by
  intro c
  rw [Phrase.read, spanned_run]
  rcases (h c).inv with ⟨hp, hrun⟩ | ⟨inner, a, next, rfl, hp, hrun⟩
  · rw [Option.getD_some, hp, hrun]
    exact .none
  · rw [Option.getD_some, hp, hrun]
    simp only [bind, Option.bind_some, if_neg hb, Option.map_some, pure]
    refine .some ⟨_, rfl, ?_⟩
    rw [textTo_eq_of_passes (hq c a next hrun), String.ofList_toList]

end Mirrors

/-! Repetition. -/

theorem agree_manyRun {N : Tree → α → Prop} {f : Cursor → Option (List Tree × Cursor)}
    {g : Cursor → Option (α × Cursor)} (h : ∀ c, Agree (One N) (f c) (g c)) (c : Cursor) :
    List.Forall₂ N (manyRun f c).1.flatten (manyRun g c).1 ∧ (manyRun f c).2 = (manyRun g c).2 := by
  fun_induction manyRun g c with
  | case1 c hnone =>
    rcases (h c).inv with ⟨hf, -⟩ | ⟨_, _, _, -, -, hsome⟩
    · rw [manyRun, hf]
      exact ⟨.nil, rfl⟩
    · rw [hnone] at hsome
      contradiction
  | case2 c a mid hsome hlt as last hrest ih =>
    rcases (h c).inv with ⟨-, hnone⟩ | ⟨_, _, _, ⟨t, rfl, stand⟩, hf, hg⟩
    · rw [hnone] at hsome
      contradiction
    · cases hsome.symm.trans hg
      rw [hrest] at ih
      rw [manyRun, hf]
      simp only [hlt, ↓reduceIte, List.flatten_cons, List.singleton_append]
      exact ⟨.cons stand ih.1, ih.2⟩
  | case3 c a mid hsome hle =>
    rcases (h c).inv with ⟨-, hnone⟩ | ⟨_, _, _, -, hf, hg⟩
    · rw [hnone] at hsome
      contradiction
    · cases hsome.symm.trans hg
      rw [manyRun, hf]
      simp only [hle, ↓reduceIte]
      exact ⟨.nil, trivial⟩

/-- A phrase that is repeated starts behind the blanks, and so does not skip them where it
is never read; its parser does, but the part that follows skips them again. -/
theorem Mirrors.exists_many {N : Tree → α → Prop} {p : Phrase} {q : Parser α}
    (h : Mirrors .loose p q (One N)) (hp : p.consumes) (c : Cursor) :
    ∃ trees last, (Phrase.many p).read .loose c.skipSpaces = some (trees, last) ∧
      List.Forall₂ N trees (manyRun (Grammar.token q).run c).1 ∧
      last.skipSpaces = (manyRun (Grammar.token q).run c).2.skipSpaces := by
  rcases (h c.skipSpaces).inv with ⟨hread, hrun⟩ | ⟨_, a, mid, ⟨t, rfl, stand⟩, hread, hrun⟩
  · refine ⟨[], c.skipSpaces, ?_, ?_⟩
    · simp only [Phrase.read, hread]
    · rw [manyRun, token_run, hrun]
      exact ⟨.nil, c.skipSpaces_skipSpaces⟩
  · have hshorter : mid.rest.length < c.rest.length :=
      Nat.lt_of_lt_of_le (Phrase.length_lt_of_read hp hread) (c.skipWhile_length _)
    obtain ⟨stands, same⟩ := agree_manyRun (fun c => h c.skipSpaces) mid
    rw [manyRun, token_run, hrun]
    simp only [Phrase.read, hread, hshorter, ↓reduceIte]
    exact ⟨_, _, rfl, .cons stand stands, congrArg Cursor.skipSpaces same⟩

theorem Mirrors.many_both {N : Tree → α → Prop} {p rest : Phrase} {q : Parser α}
    {f : List α → Parser β} {S : List Tree → β → Prop} (h : Mirrors .loose p q (One N))
    (hp : p.consumes) (k : ∀ trees as, List.Forall₂ N trees as →
      MirrorsAfter .loose rest (f as) fun others d => S (trees ++ others) d) :
    MirrorsAfter .loose (.both (.many p) rest) (many (Grammar.token q) >>= f) S := by
  intro c
  obtain ⟨trees, last, hread, stands, same⟩ := h.exists_many hp c
  have hc := (k trees _ stands (manyRun (Grammar.token q).run c).2).prepend
  have hskip : Binding.loose.skip last = Binding.loose.skip (manyRun (Grammar.token q).run c).2 :=
    same
  rw [← hskip] at hc
  have hbody : (Phrase.both (.many p) rest).read .loose (Binding.loose.skip c) =
      (rest.read .loose (Binding.loose.skip last)).bind fun (after, next) =>
        some (trees ++ after, next) := by
    have hmany : (Phrase.many p).read .loose (Binding.loose.skip c) = some (trees, last) := hread
    rw [Phrase.read, hmany]
    rfl
  rw [hbody]
  exact hc

/-! Single parts. -/

theorem mirrors_literal (word : String) (b : Binding) :
    Mirrors b (.literal word) (Parser.literal word) Bare := by
  intro c
  rw [Phrase.read_literal]
  cases (Parser.literal word).run c with
  | none => exact .none
  | some r => exact .some rfl

theorem Mirrors.literal_both {b : Binding} {word : String} {rest : Phrase} {f : Unit → Parser α}
    {R : List Tree → α → Prop} (h : MirrorsAfter b rest (f ()) R) :
    Mirrors b (.both (.literal word) rest) (Parser.literal word >>= f) R :=
  (mirrors_literal word b).both fun _ _ hbare => by
    cases hbare
    exact h

theorem MirrorsAfter.literal_both {word : String} {rest : Phrase} {f : Unit → Parser α}
    {R : List Tree → α → Prop} (h : MirrorsAfter .loose rest (f ()) R) :
    MirrorsAfter .loose (.both (.literal word) rest) (Grammar.token (Parser.literal word) >>= f) R :=
  (Mirrors.literal_both h).token_bind

theorem MirrorsAfter.literal_last {word : String} {a : α} {R : List Tree → α → Prop} (stand : R [] a) :
    MirrorsAfter .loose (.literal word) (Grammar.token (Parser.literal word) >>= fun _ => pure a) R :=
  ((mirrors_literal word _).finish fun _ _ hbare => by
    cases hbare
    exact ⟨a, rfl, stand⟩).token_bind

theorem mirrors_char_absent (test : Char → Bool) (b : Binding) :
    Mirrors b (.absent (.char test)) (notNext test) Bare := by
  intro c
  simp only [Phrase.read, notNext, silent]
  by_cases h : c.rest.head?.any test
  · simp only [h, ↓reduceIte, Option.isSome_some]
    exact .none
  · simp only [h, Bool.false_eq_true, ↓reduceIte, Option.isSome_none]
    exact .some rfl

/-! Runs of characters. -/

theorem skipWhile_of_head? {test : Char → Bool} {c : Cursor} (h : c.rest.head?.any test = false) :
    c.skipWhile test = c :=
  ((skipWhile_eq_iff test c c []).2 ⟨nofun, passes_nil c, h⟩).2

theorem skipWhile_advance {test : Char → Bool} {c : Cursor} (h : c.rest.head?.any test) :
    (c.advance 1).skipWhile test = c.skipWhile test ∧
      (c.advance 1).rest.length < c.rest.length := by
  cases hrest : c.rest with
  | nil => simp [hrest] at h
  | cons a rest =>
    have ha : test a := by simpa [hrest] using h
    simp [Cursor.skipWhile, Cursor.advance, hrest, ha, Position.after]

theorem manyRun_char {test : Char → Bool} {f : Cursor → Option (List Tree × Cursor)}
    (hf : ∀ c, f c = (Phrase.char test).read .solid c) (c : Cursor) :
    (manyRun f c).1.flatten = [] ∧ (manyRun f c).2 = c.skipWhile test := by
  have hstep (c : Cursor) : f c = if c.rest.head?.any test then some ([], c.advance 1) else none :=
    hf c
  fun_induction manyRun f c with
  | case1 c hnone =>
    rw [hstep, ite_eq_right_iff] at hnone
    exact ⟨rfl, (skipWhile_of_head? (by simpa using hnone)).symm⟩
  | case2 c trees mid hsome hlt others last hrest ih =>
    rw [hstep, Option.ite_none_right_eq_some] at hsome
    obtain ⟨hhead, ⟨⟩⟩ := hsome
    rw [hrest] at ih
    exact ⟨ih.1, ih.2.trans (skipWhile_advance hhead).1⟩
  | case3 c trees mid hsome hle =>
    rw [hstep, Option.ite_none_right_eq_some] at hsome
    obtain ⟨hhead, ⟨⟩⟩ := hsome
    exact absurd (skipWhile_advance hhead).2 hle

theorem many_char_read {test : Char → Bool} {p : Phrase}
    (hp : ∀ c, p.read .solid c = (Phrase.char test).read .solid c) (c : Cursor) :
    (Phrase.many p).read .solid c = some ([], c.skipWhile test) := by
  have hstep : p.read .solid c = if c.rest.head?.any test then some ([], c.advance 1) else none :=
    hp c
  by_cases h : c.rest.head?.any test
  · rw [if_pos h] at hstep
    have hmany : manyRun (fun c => p.read .solid (Binding.solid.skip c)) (c.advance 1) =
        (_, _) := rfl
    obtain ⟨hbare, hlast⟩ := manyRun_char hp (c.advance 1)
    refine (Phrase.many_read_iff p .solid c _ _).2 (.inr ⟨[], _, _, hstep, Prod.ext rfl ?_, ?_⟩)
    · exact hlast.trans (skipWhile_advance h).1
    · rw [List.nil_append]
      exact hbare.symm
  · rw [if_neg h] at hstep
    refine (Phrase.many_read_iff p .solid c _ _).2 (.inl ⟨hstep, rfl, ?_⟩)
    exact (skipWhile_of_head? (by simpa using h)).symm

theorem any_of_imp {r s : Char → Bool} (hrs : ∀ a, r a → s a) {o : Option Char} (h : o.any r) :
    o.any s := by
  cases o with
  | none => exact h
  | some a => exact hrs a h

theorem word_read {first : Phrase} {test : Char → Bool}
    (hfirst : ∀ c, first.read .solid c = (Phrase.char test).read .solid c)
    (htest : ∀ a, test a → Grammar.isWordChar a) (c : Cursor) :
    (Phrase.both first (.many Phrase.wordChar)).read .solid c =
      if c.rest.head?.any test then some ([], c.skipWhile Grammar.isWordChar) else none := by
  have hstep : first.read .solid c =
      if c.rest.head?.any test then some ([], c.advance 1) else none := hfirst c
  by_cases h : c.rest.head?.any test
  · rw [if_pos h] at hstep ⊢
    refine (Phrase.both_read_iff _ _ _ _ _ _).2 ⟨[], _, [], hstep, ?_, rfl⟩
    rw [← (skipWhile_advance (any_of_imp htest h)).1]
    exact many_char_read (fun _ => rfl) _
  · rw [if_neg h] at hstep ⊢
    simp [Phrase.read, hstep]

theorem mirrors_takeSome :
    Mirrors .solid (.both Phrase.wordChar (.many Phrase.wordChar)) (takeSome Grammar.isWordChar)
      Bare := by
  intro c
  have hread : (Phrase.both Phrase.wordChar (.many Phrase.wordChar)).read .solid c =
      if c.rest.head?.any Grammar.isWordChar then some ([], c.skipWhile Grammar.isWordChar)
      else none := word_read (fun _ => rfl) (fun _ => id) c
  rw [hread]
  simp only [takeSome, silent]
  split
  · exact .some rfl
  · exact .none

theorem mirrors_takeWhile {test : Char → Bool} {p : Phrase}
    (hp : ∀ c, p.read .solid c = (Phrase.char test).read .solid c) :
    Mirrors .solid (.many p) (takeWhile test) Bare := by
  intro c
  rw [many_char_read hp]
  exact .some rfl

/-! Tokens. -/

def LeafNode (symbol : Symbol) (t : Tree) (s : String) : Prop :=
  ∃ span, t = .node (.part symbol) s span []

/-- The node of an action, which covers the colon too. -/
def ActionNode (t : Tree) (a : String × Span) : Prop :=
  t = .node (.part .action) (":" ++ a.1) a.2 []

theorem mirrors_leaf {symbol : Symbol} {p : Phrase} {q : Parser α} (shown : α → String)
    (h : Mirrors .solid p q Bare)
    (hq : ∀ c a next, q.run c = some (a, next) → Passes c (shown a).toList next) :
    Mirrors .loose (.leaf symbol p) q (One fun t a => LeafNode symbol t (shown a)) :=
  (h.leaf (by decide) shown hq).unspanned

theorem mirrors_keyword (word : String) :
    Mirrors .loose (Phrase.keyword word) (Grammar.keyword word)
      (One fun t _ => LeafNode (.keyword word) t word) := by
  have hbody : Mirrors .solid (.both (.literal word) (.absent Phrase.wordChar))
      (literal word >>= fun _ => notNext Grammar.isWordChar) Bare :=
    .literal_both (mirrors_char_absent _ _).solid
  refine mirrors_leaf (q := Grammar.keyword word) (fun _ => word) hbody fun c _ next hrun => ?_
  exact ((keyword_run_iff word c next).1 hrun).passes

theorem mirrors_name : Mirrors .loose Phrase.name Grammar.name (One (LeafNode .name)) := by
  refine mirrors_leaf (q := Grammar.name) id mirrors_takeSome fun c s next hrun => ?_
  exact ((name_run_iff s c next).1 hrun).2.passes

theorem mirrors_action :
    Mirrors .loose Phrase.action (spanned Grammar.action) (One ActionNode) := by
  have hbody : Mirrors .solid (.both (.literal ":") (.both Phrase.wordChar (.many Phrase.wordChar)))
      (literal ":" >>= fun _ => takeSome Grammar.isWordChar) Bare :=
    .literal_both mirrors_takeSome.solid
  refine Mirrors.leaf (q := Grammar.action) (by decide) hbody (":" ++ ·) fun c s next hrun => ?_
  obtain ⟨-, hstarts, -⟩ := (action_run_iff s c next).1 hrun
  simpa [Token.chars] using hstarts.passes

theorem mirrors_parameterKey :
    Mirrors .loose Phrase.parameterKey Grammar.parameterKey (One (LeafNode .parameterKey)) := by
  have hfirst (c : Cursor) : (Phrase.either (.char Char.isAlpha) (.literal "_")).read .solid c =
      (Phrase.char Grammar.isKeyStart).read .solid c := by
    simp only [Phrase.read]
    cases hrest : c.rest with
    | nil => simp
    | cons a rest =>
      by_cases ha : a.isAlpha
      · simp [Grammar.isKeyStart, ha]
      · by_cases hline : a = '_'
        · simp [Grammar.isKeyStart, hline]
        · simp [Grammar.isKeyStart, ha, hline, Ne.symm hline]
  have htest (a : Char) (ha : Grammar.isKeyStart a) : Grammar.isWordChar a := by
    simp only [Grammar.isKeyStart, Grammar.isWordChar, Bool.or_eq_true, Char.isAlphanum] at ha ⊢
    rcases ha with ha | ha
    · exact .inl (.inl ha)
    · exact .inr ha
  have hbody : Mirrors .solid
      (.both (.either (.char Char.isAlpha) (.literal "_")) (.many Phrase.wordChar))
      Grammar.parameterKey Bare := by
    intro c
    rw [word_read hfirst htest]
    have hrun : Grammar.parameterKey.run c = if c.rest.head?.any Grammar.isKeyStart then
        (takeSome Grammar.isWordChar).run c else none := rfl
    rw [hrun]
    split
    · next hkey =>
      simp only [takeSome, silent, any_of_imp htest hkey, ↓reduceIte]
      exact .some rfl
    · exact .none
  refine mirrors_leaf (q := Grammar.parameterKey) id hbody fun c s next hrun => ?_
  exact ((parameterKey_run_iff s c next).1 hrun).2.passes

/-- A quoted text leaves a node for its inside too. -/
def TextNode (t : Tree) (value : String) : Prop :=
  ∃ text span inside, t = .node (.part .text) text span [.node .quoted value inside []]

theorem mirrors_text : Mirrors .loose Phrase.text Grammar.text (One TextNode) := by
  have hchar (c : Cursor) :
      (Phrase.both (.absent (.literal "\"")) (.char fun _ => true)).read .solid c =
        (Phrase.char (· ≠ '"')).read .solid c := by
    obtain ⟨rest, position⟩ := c
    cases rest with
    | nil => simp [Phrase.read, Binding.skip]
    | cons a rest =>
      by_cases ha : a = '"'
      · simp [Phrase.read, ha]
      · simp [Phrase.read, Binding.skip, ha, Ne.symm ha]
  have hquoted : Mirrors .tight Phrase.quoted (spanned (takeWhile (· ≠ '"')))
      (One fun t quoted => t = .node .quoted quoted.1 quoted.2 []) := by
    refine (mirrors_takeWhile hchar).leaf (by decide) id fun c s next hrun => ?_
    exact ((takeWhile_run_iff _ c next s).1 hrun).2.1
  have hbody : Mirrors .tight (Phrase.inOrder (.literal "\"") [Phrase.quoted, .literal "\""])
      (literal "\"" >>= fun _ => takeWhile (· ≠ '"') >>= fun value => literal "\"" >>= fun _ =>
        pure value) fun trees value => ∃ inside, trees = [.node .quoted value inside []] := by
    refine .literal_both (hquoted.unspanned.both ?_).tight
    rintro _ value ⟨t, rfl, inside, rfl⟩
    refine ((mirrors_literal _ _).finish fun _ _ hbare => ?_).tight
    cases hbare
    exact ⟨value, rfl, inside, rfl⟩
  refine (Mirrors.named (.part .text) .text (some .tight) (by decide) hbody).unspanned.weaken ?_
  rintro _ value ⟨t, rfl, span, text, _, rfl, inside, rfl⟩
  exact ⟨_, rfl, text, span, inside, rfl⟩

end SimpleFiles.Source
