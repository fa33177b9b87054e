import SimpleFiles.Proofs.Source.Mirroring

/-! What is built from the tree of a text. Every part that a statement is built from is
there, so that a text denotes by way of its tree what it denotes at once, and the only
node that is refused is a condition that declares another action than its own. -/
namespace SimpleFiles.Source

open SimpleFiles.Source.Parser

/-- A condition whose action is not its own, as its node shows it. -/
def Tree.Misdeclares (t : Tree) (what : Misdeclared) : Prop :=
  t.tag = .part .condition ∧ ∃ name action,
    t.inner.find? (·.tag = .part .name) = some name ∧
      t.inner.find? (·.tag = .part .action) = some action ∧
      action.text ≠ ":condition" ∧ what = ⟨name.text, action.text, action.span⟩

def FirstMisdeclared (nodes : List Tree) (what : Misdeclared) : Prop :=
  ∃ before t after, nodes = before ++ t :: after ∧
    (∀ u ∈ before, ∀ other, ¬u.Misdeclares other) ∧ t.Misdeclares what

/-- How a fault is told by way of the tree. -/
def Fault.staged : Fault → StagedFault
  | .unexpected source what => .unexpected source what
  | .misdeclared what => .unbuilt (.misdeclared what)

/-! Parameters. -/

def ParameterNode (t : Tree) (p : Parameter) : Prop :=
  t.tag = .part .parameter ∧ t.buildParameter = .ok p

theorem mirrors_parameter :
    Mirrors .loose Phrase.parameter Grammar.parameter (One ParameterNode) := by
  have hbody : Mirrors .loose
      (.inOrder (.literal "-->") [Phrase.parameterKey, .literal "=", Phrase.text])
      (do
        literal "-->"
        let key ← Grammar.token Grammar.parameterKey
        Grammar.token (literal "=")
        let value ← Grammar.token Grammar.text
        return (key, value))
      fun trees (key, value) =>
        ∃ k v, trees = [k, v] ∧ LeafNode .parameterKey k key ∧ TextNode v value := by
    refine .literal_both (mirrors_parameterKey.both ?_).token_bind
    rintro _ key ⟨k, rfl, hk⟩
    refine MirrorsAfter.literal_both (mirrors_text.finish ?_).token_bind
    rintro _ value ⟨v, rfl, hv⟩
    exact ⟨_, rfl, k, v, rfl, hk, hv⟩
  refine (Mirrors.named (.part .parameter) .parameter none (by decide) hbody).finish ?_
  rintro _ ⟨⟨key, value⟩, span⟩ ⟨_, rfl, text, _, rfl, _, _, rfl, ⟨_, rfl⟩, ⟨_, _, _, rfl⟩⟩
  exact ⟨⟨key, value, span⟩, rfl, _, rfl, rfl, rfl⟩

theorem mapM_congr_of_forall₂ {f : α → Except ε β} {g : γ → Except ε β} {as : List α} {cs : List γ}
    (h : List.Forall₂ (fun a c => f a = g c) as cs) : as.mapM f = cs.mapM g := by
  induction h with
  | nil => rfl
  | cons hac _ ih => rw [List.mapM_cons, List.mapM_cons, hac, ih]

theorem buildParameters_eq {ts : List Tree} {params : List Parameter}
    (h : List.Forall₂ ParameterNode ts params) : Tree.buildParameters ts = .ok params := by
  obtain ⟨htag, hbuilt⟩ := (List.forall₂_and_left _ _).1 h
  have hfilter : (ts.filter fun t => t.tag = .part .parameter) = ts :=
    List.filter_eq_self.2 fun t ht => decide_eq_true (htag t ht)
  rw [Tree.buildParameters, hfilter, mapM_congr_of_forall₂ hbuilt]
  have hall : params.mapM (fun p => (pure (id p) : Except BuildFault Parameter)) =
      pure (params.map id) := List.mapM_pure
  rwa [List.map_id] at hall

/-! Statements. -/

structure ItemNode (t : Tree) (item : Except Misdeclared Statement) : Prop where
  isItem : t.isItem
  built : t.buildStatement = item.mapError .misdeclared
  misdeclares : ∀ what, t.Misdeclares what ↔ item = .error what

theorem itemNode_of_ok {t : Tree} {s : Statement} (hitem : t.isItem)
    (hbuilt : t.buildStatement = .ok s) (htag : t.tag ≠ .part .condition) : ItemNode t (.ok s) where
  isItem := hitem
  built := hbuilt
  misdeclares _ := ⟨fun h => absurd h.1 htag, nofun⟩

theorem mirrors_declaration (symbol : Symbol) (word : String) {q : Parser β} {A : Tree → β → Prop}
    (hq : Mirrors .loose Phrase.action q (One A)) :
    Mirrors .loose (Phrase.declaration symbol word)
      (spanned (Parser.named symbol do
        Grammar.keyword word
        let name ← Grammar.token Grammar.name
        Grammar.token (literal "->")
        let action ← Grammar.token q
        let params ← many (Grammar.token Grammar.parameter)
        Grammar.token (literal ";")
        return (name, action, params)))
      (One fun t ((name, action, params), span) => ∃ text kw n a ps,
        t = .node (.part symbol) text span (kw :: n :: a :: ps) ∧
          LeafNode (.keyword word) kw word ∧ LeafNode .name n name ∧ A a action ∧
          List.Forall₂ ParameterNode ps params) := by
  refine (Mirrors.named (R := fun inner (name, action, params) => ∃ kw n a ps,
    inner = kw :: n :: a :: ps ∧ LeafNode (.keyword word) kw word ∧ LeafNode .name n name ∧
      A a action ∧ List.Forall₂ ParameterNode ps params)
    (.part symbol) symbol none (by decide) ((mirrors_keyword word).both ?_)).weaken ?_
  · rintro _ _ ⟨kw, rfl, hkw⟩
    refine (mirrors_name.both ?_).token_bind
    rintro _ name ⟨n, rfl, hn⟩
    refine MirrorsAfter.literal_both (hq.both ?_).token_bind
    rintro _ action ⟨a, rfl, ha⟩
    refine mirrors_parameter.many_both rfl fun ps params hps => ?_
    exact .literal_last ⟨kw, n, a, ps, by simp, hkw, hn, ha, hps⟩
  · rintro _ ⟨⟨name, action, params⟩, span⟩ ⟨t, rfl, text, _, rfl, kw, n, a, ps, rfl, hparts⟩
    exact ⟨_, rfl, text, kw, n, a, ps, rfl, hparts⟩

theorem mirrors_instruction :
    Mirrors .loose Phrase.instruction Grammar.instruction (One fun t s => ItemNode t (.ok s)) := by
  refine (mirrors_declaration .instruction "INST" mirrors_action.unspanned).finish ?_
  rintro _ ⟨⟨name, word, params⟩, span⟩ ⟨t, rfl, text, kw, n, a, ps, rfl, ⟨atKeyword, rfl⟩,
    ⟨atName, rfl⟩, ⟨atAction, rfl⟩, hps⟩
  refine ⟨.instruction ⟨name, .ofKeyword (":" ++ word), params, span⟩, rfl, _, rfl, ?_⟩
  have hbuilt : Tree.buildStatement (.node (.part .instruction) text span
      (.node (.part (.keyword "INST")) "INST" atKeyword [] :: .node (.part .name) name atName [] ::
        .node (.part .action) (":" ++ word) atAction [] :: ps)) = (do
      let params ← Tree.buildParameters ps
      return .instruction ⟨name, .ofKeyword (":" ++ word), params, span⟩) := rfl
  rw [buildParameters_eq hps] at hbuilt
  exact itemNode_of_ok rfl hbuilt nofun

theorem action_eq_condition_iff (word : String) :
    ":" ++ word = ":condition" ↔ word = "condition" := by
  have hcondition : ":condition" = ":" ++ "condition" := by decide
  rw [hcondition]
  exact String.append_right_inj ":"

section Condition

variable {text name word : String} {span atKeyword atName place : Span} {ps : List Tree}

def conditionNode (text name word : String) (span atKeyword atName place : Span)
    (ps : List Tree) : Tree :=
  .node (.part .condition) text span (.node (.part (.keyword "COND")) "COND" atKeyword [] ::
    .node (.part .name) name atName [] :: .node (.part .action) (":" ++ word) place [] :: ps)

theorem misdeclares_conditionNode_iff (what : Misdeclared) :
    (conditionNode text name word span atKeyword atName place ps).Misdeclares what ↔
      word ≠ "condition" ∧ what = ⟨name, ":" ++ word, place⟩ := by
  constructor
  · rintro ⟨-, n, a, hn, ha, haction, rfl⟩
    cases hn
    cases ha
    exact ⟨mt (action_eq_condition_iff word).2 haction, rfl⟩
  · rintro ⟨hword, rfl⟩
    exact ⟨rfl, _, _, rfl, rfl, mt (action_eq_condition_iff word).1 hword, rfl⟩

theorem itemNode_condition {params : List Parameter} (hps : List.Forall₂ ParameterNode ps params) :
    ItemNode (conditionNode text name word span atKeyword atName place ps)
      (conditionOf name word place params span) := by
  have hbuilt : (conditionNode text name word span atKeyword atName place ps).buildStatement =
      if ":" ++ word = ":condition" then (do
        let params ← Tree.buildParameters ps
        return .condition ⟨name, params, span⟩)
      else throw (.misdeclared ⟨name, ":" ++ word, place⟩) := rfl
  rw [buildParameters_eq hps] at hbuilt
  by_cases hword : word = "condition"
  · refine ⟨rfl, ?_, fun what => ?_⟩
    · rw [hbuilt, if_pos ((action_eq_condition_iff word).2 hword), conditionOf, if_pos hword]
      rfl
    · rw [misdeclares_conditionNode_iff, conditionOf, if_pos hword]
      simp [hword]
  · refine ⟨rfl, ?_, fun what => ?_⟩
    · rw [hbuilt, if_neg (mt (action_eq_condition_iff word).1 hword), conditionOf, if_neg hword]
      rfl
    · rw [misdeclares_conditionNode_iff, conditionOf, if_neg hword]
      simp [hword, eq_comm]

end Condition

theorem mirrors_condition :
    Mirrors .loose Phrase.condition Grammar.condition (One ItemNode) := by
  refine (mirrors_declaration .condition "COND" mirrors_action).finish ?_
  rintro _ ⟨⟨name, ⟨word, place⟩, params⟩, span⟩ ⟨t, rfl, text, kw, n, a, ps, rfl, ⟨atKeyword, rfl⟩,
    ⟨atName, rfl⟩, rfl, hps⟩
  exact ⟨_, pure_conditionOf .., _, rfl, itemNode_condition hps⟩

theorem mirrors_assignment :
    Mirrors .loose Phrase.assignment Grammar.assignment (One fun t s => ItemNode t (.ok s)) := by
  have hbody : Mirrors .loose (.inOrder (Phrase.keyword "VAR")
        [Phrase.parameterKey, .literal "=", Phrase.text, .literal ";"])
      (do
        Grammar.keyword "VAR"
        let key ← Grammar.token Grammar.parameterKey
        Grammar.token (literal "=")
        let value ← Grammar.token Grammar.text
        Grammar.token (literal ";")
        return (key, value))
      fun trees (key, value) => ∃ kw k v, trees = [kw, k, v] ∧
        LeafNode (.keyword "VAR") kw "VAR" ∧ LeafNode .parameterKey k key ∧ TextNode v value := by
    refine (mirrors_keyword "VAR").both ?_
    rintro _ _ ⟨kw, rfl, hkw⟩
    refine (mirrors_parameterKey.both ?_).token_bind
    rintro _ key ⟨k, rfl, hk⟩
    refine MirrorsAfter.literal_both (mirrors_text.both ?_).token_bind
    rintro _ value ⟨v, rfl, hv⟩
    exact .literal_last ⟨kw, k, v, rfl, hkw, hk, hv⟩
  refine (Mirrors.named (.part .variable) .variable none (by decide) hbody).finish ?_
  rintro _ ⟨⟨key, value⟩, span⟩ ⟨_, rfl, text, _, rfl, _, _, _, rfl, ⟨_, rfl⟩, ⟨_, rfl⟩,
    ⟨_, _, _, rfl⟩⟩
  exact ⟨.assign key value span, rfl, _, rfl, itemNode_of_ok rfl rfl nofun⟩

theorem mirrors_executeInstruction :
    Mirrors .loose Phrase.executeInstruction Grammar.executeInstruction
      (One fun t s => ItemNode t (.ok s)) := by
  have hbody : Mirrors .loose (.inOrder (Phrase.keyword "EXEC_INST") [Phrase.name, .literal ";"])
      (do
        Grammar.keyword "EXEC_INST"
        let name ← Grammar.token Grammar.name
        Grammar.token (literal ";")
        return name)
      fun trees name => ∃ kw n, trees = [kw, n] ∧
        LeafNode (.keyword "EXEC_INST") kw "EXEC_INST" ∧ LeafNode .name n name := by
    refine (mirrors_keyword "EXEC_INST").both ?_
    rintro _ _ ⟨kw, rfl, hkw⟩
    refine (mirrors_name.both ?_).token_bind
    rintro _ name ⟨n, rfl, hn⟩
    exact .literal_last ⟨kw, n, rfl, hkw, hn⟩
  refine (Mirrors.named (.part .executeInstruction) .executeInstruction none (by decide)
    hbody).finish ?_
  rintro _ ⟨name, span⟩ ⟨_, rfl, text, _, rfl, _, _, rfl, ⟨_, rfl⟩, ⟨_, rfl⟩⟩
  exact ⟨.execute name none span, rfl, _, rfl, itemNode_of_ok rfl rfl nofun⟩

theorem mirrors_executeUnderCondition :
    Mirrors .loose Phrase.executeUnderCondition Grammar.executeUnderCondition
      (One fun t s => ItemNode t (.ok s)) := by
  have hbody : Mirrors .loose (.inOrder (Phrase.keyword "EXEC_COND_MAP")
        [Phrase.name, Phrase.keyword "WITH_COND", Phrase.name, .literal ";"])
      (do
        Grammar.keyword "EXEC_COND_MAP"
        let name ← Grammar.token Grammar.name
        Grammar.token (Grammar.keyword "WITH_COND")
        let under ← Grammar.token Grammar.name
        Grammar.token (literal ";")
        return (name, under))
      fun trees (name, under) => ∃ kw n kw' u, trees = [kw, n, kw', u] ∧
        LeafNode (.keyword "EXEC_COND_MAP") kw "EXEC_COND_MAP" ∧ LeafNode .name n name ∧
          LeafNode (.keyword "WITH_COND") kw' "WITH_COND" ∧ LeafNode .name u under := by
    refine (mirrors_keyword "EXEC_COND_MAP").both ?_
    rintro _ _ ⟨kw, rfl, hkw⟩
    refine (mirrors_name.both ?_).token_bind
    rintro _ name ⟨n, rfl, hn⟩
    refine ((mirrors_keyword "WITH_COND").both ?_).token_bind
    rintro _ _ ⟨kw', rfl, hkw'⟩
    refine (mirrors_name.both ?_).token_bind
    rintro _ under ⟨u, rfl, hu⟩
    exact .literal_last ⟨kw, n, kw', u, rfl, hkw, hn, hkw', hu⟩
  refine (Mirrors.named (.part .executeUnderCondition) .executeUnderCondition none (by decide)
    hbody).finish ?_
  rintro _ ⟨⟨name, under⟩, span⟩ ⟨_, rfl, text, _, rfl, _, _, _, _, rfl, ⟨_, rfl⟩, ⟨_, rfl⟩,
    ⟨_, rfl⟩, ⟨_, rfl⟩⟩
  exact ⟨.execute name (some under) span, rfl, _, rfl, itemNode_of_ok rfl rfl nofun⟩

theorem mirrors_ok {p : Phrase} {q : Parser Statement}
    (h : Mirrors .loose p q (One fun t s => ItemNode t (.ok s))) :
    Mirrors .loose p (Except.ok <$> q) (One ItemNode) :=
  h.finish fun _ s stand => ⟨.ok s, rfl, stand⟩

theorem mirrors_statement :
    Mirrors .loose Phrase.statement Grammar.statement (One ItemNode) :=
  (mirrors_ok mirrors_instruction).either <| mirrors_condition.either <|
    (mirrors_ok mirrors_assignment).either <|
      (mirrors_ok mirrors_executeUnderCondition).either <| mirrors_ok mirrors_executeInstruction

/-! Programs. -/

/-- The parts of a program: its keywords, the statements between them, and the end. -/
def ProgramParts (trees : List Tree) (items : List (Except Misdeclared Statement)) : Prop :=
  ∃ first nodes last stop, trees = first :: (nodes ++ [last, stop]) ∧
    List.Forall₂ ItemNode nodes items ∧ ∀ u ∈ [first, last, stop], u.isItem = false

structure ProgramNode (t : Tree) (items : List (Except Misdeclared Statement)) (span : Span) :
    Prop where
  span : t.span = span
  parts : ProgramParts t.inner items

theorem mirrors_endOfInput :
    Mirrors .loose (.rule .endOfInput .stop []) (Parser.named .endOfInput atEnd)
      (One fun t _ => t.isItem = false) := by
  have hbody : Mirrors .loose .stop atEnd Bare := by
    intro c
    simp only [Phrase.read, atEnd, silent]
    split
    · exact .some rfl
    · exact .none
  refine (hbody.named (.part .endOfInput) .endOfInput none (by decide)).unspanned.weaken ?_
  rintro _ _ ⟨t, rfl, span, text, inner, rfl, -⟩
  exact ⟨_, rfl, rfl⟩

theorem mirrorsAfter_program :
    MirrorsAfter .loose
      (.inOrder (Phrase.keyword "BEGIN")
        [.many Phrase.statement, Phrase.keyword "END", .rule .endOfInput .stop []])
      (do
        Grammar.token (Grammar.keyword "BEGIN")
        let statements ← many (Grammar.token Grammar.statement)
        Grammar.token (Grammar.keyword "END")
        Grammar.token (Parser.named .endOfInput atEnd)
        return statements)
      ProgramParts := by
  refine ((mirrors_keyword "BEGIN").both ?_).token_bind
  rintro _ _ ⟨first, rfl, _, rfl⟩
  refine mirrors_statement.many_both rfl fun nodes items hnodes => ?_
  refine ((mirrors_keyword "END").both ?_).token_bind
  rintro _ _ ⟨last, rfl, _, rfl⟩
  refine (mirrors_endOfInput.finish ?_).token_bind
  rintro _ _ ⟨stop, rfl, hstop⟩
  refine ⟨items, rfl, _, nodes, _, stop, rfl, hnodes, ?_⟩
  simp only [List.forall_mem_cons, List.not_mem_nil, false_implies, implies_true, and_true]
  exact ⟨rfl, rfl, hstop⟩

theorem agree_program (source : String) :
    Agree (One fun t (items, span) => ProgramNode t items span)
      (Phrase.program.read .loose (start source)) ((spanned Grammar.program).run (start source)) := by
  have hparts : Agree (fun trees items => ProgramParts ([] ++ trees) items) _ _ :=
    mirrorsAfter_program (start source)
  have hwhole : Agree ProgramParts ((Phrase.both .start _).read .loose (start source)) _ :=
    hparts.prepend
  have hnamed := hwhole.named (b := .loose) (.part .program) .program none (by decide)
  refine hnamed.weaken ?_
  rintro _ ⟨items, span⟩ ⟨t, rfl, text, inner, rfl, hinner⟩
  exact ⟨_, rfl, rfl, hinner⟩

theorem treesOf_cases (source : String) :
    (treesOf source = none ∧ Grammar.program.run (start source) = none) ∨
      ∃ t items next, treesOf source = some [t] ∧
        Grammar.program.run (start source) = some (items, next) ∧
          ProgramNode t items (Position.spanTo {} next.position) ∧ t.CutFrom source := by
  have hagree := agree_program source
  rw [spanned_run] at hagree
  cases hrun : Grammar.program.run (start source) with
  | none =>
    rw [hrun] at hagree
    rcases hagree.inv with ⟨hp, -⟩ | ⟨_, _, _, -, -, hsome⟩
    · exact .inl ⟨by rw [treesOf, hp]; rfl, rfl⟩
    · contradiction
  | some r =>
    obtain ⟨items, next⟩ := r
    rw [hrun] at hagree
    rcases hagree.inv with ⟨-, hnone⟩ | ⟨_, _, _, ⟨t, rfl, hnode⟩, hp, ⟨⟩⟩
    · contradiction
    · refine .inr ⟨t, items, next, by rw [treesOf, hp]; rfl, rfl, hnode, ?_⟩
      exact Phrase.cutFrom_of_read (start_stands source) hp t (by simp)

theorem mapM_mapError {g : ε → δ} (items : List (Except ε α)) :
    items.mapM (Except.mapError g) = (items.mapM id).mapError g := by
  induction items with
  | nil => rfl
  | cons item items ih =>
    rw [List.mapM_cons, List.mapM_cons, ih]
    cases item with
    | error e => rfl
    | ok a => cases items.mapM id <;> rfl

theorem ProgramNode.filter_isItem {t : Tree} {items : List (Except Misdeclared Statement)}
    {span : Span} (h : ProgramNode t items span) :
    List.Forall₂ ItemNode (t.inner.filter Tree.isItem) items := by
  obtain ⟨-, first, nodes, last, stop, hinner, hnodes, hothers⟩ := h
  have hfilter : nodes.filter Tree.isItem = nodes :=
    List.filter_eq_self.2 ((List.forall₂_and_left _ _).1 (hnodes.imp fun _ _ h => ⟨h.isItem, h⟩)).1
  simp only [List.forall_mem_cons] at hothers
  simp [hinner, hfilter, hothers, hnodes]

theorem ProgramNode.built {t : Tree} {items : List (Except Misdeclared Statement)} {span : Span}
    (h : ProgramNode t items span) : Tree.buildProgram [t] =
      ((items.mapM id).mapError .misdeclared).map fun statements => ⟨statements, span⟩ := by
  have hstatements : (t.inner.filter Tree.isItem).mapM Tree.buildStatement =
      (items.mapM id).mapError .misdeclared := by
    rw [← mapM_mapError]
    exact mapM_congr_of_forall₂ (h.filter_isItem.imp fun _ _ hnode => hnode.built)
  rw [Tree.buildProgram, hstatements, h.span]
  cases items.mapM id <;> rfl

theorem parseStaged_eq (source : String) :
    parseStaged source = (parse source).mapError Fault.staged := by
  rcases treesOf_cases source with ⟨htrees, hrun⟩ | ⟨t, items, next, htrees, hrun, hnode, -⟩
  · rw [parseStaged, parse, htrees, hrun]
    rfl
  · rw [parseStaged, parse, htrees, hrun]
    simp only [hnode.built]
    cases items.mapM id <;> rfl

end SimpleFiles.Source
