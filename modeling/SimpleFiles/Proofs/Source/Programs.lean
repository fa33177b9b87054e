import Mathlib.Data.List.Nodup
import SimpleFiles.Proofs.Source.Statements

/-! Parsing accepts exactly the renderings of programs. The alternatives of a
statement exclude one another by their keywords, so the order in which they are
tried does not matter, and a list of statements ends where `END` is read. -/
namespace SimpleFiles.Source

open Grammar SimpleFiles.Source.Parser

def Opens (keyword : String) (c : Cursor) : Prop :=
  IsWord keyword ∧ ∃ next, (Token.word keyword).ReadAt c next

theorem Opens.unique {k l : String} {c : Cursor} (h : Opens k c) (h' : Opens l c) : k = l := by
  obtain ⟨hk, _, hread⟩ := h
  obtain ⟨hl, _, hread'⟩ := h'
  exact word_unique hread hread' hk hl

theorem Reads.opens {keyword : String} {ts : List Token} {c next : Cursor}
    (h : Reads (.word keyword :: ts) c next) (hk : IsWord keyword) : Opens keyword c := by
  obtain ⟨mid, first, -⟩ := (reads_cons_iff _ _ _ _).1 h
  exact ⟨hk, mid, first⟩

theorem isWord_of_all {word : String} (hne : word ≠ "") (h : word.toList.all isWordChar = true) :
    IsWord word :=
  ⟨hne, List.all_eq_true.1 h⟩

theorem isWord_keyword {keyword : String}
    (h : keyword ∈ ["BEGIN", "END", "INST", "COND", "VAR", "EXEC_INST", "EXEC_COND_MAP"]) :
    IsWord keyword := by
  simp only [List.mem_cons, List.not_mem_nil, or_false] at h
  rcases h with rfl | rfl | rfl | rfl | rfl | rfl | rfl <;>
    exact isWord_of_all (by decide) (by decide)

theorem Declares.opens {keyword name word : String} {place : Span} {params : List Parameter}
    {c next : Cursor} (h : Declares keyword c name word place params next)
    (hk : IsWord keyword) : Opens keyword c := by
  have reads : Reads (.word keyword :: _) c next := h.reads.2
  exact reads.opens hk

@[simp] theorem map_run_eq_some_iff (f : α → β) (p : Parser α) (c next : Cursor) (b : β) :
    (f <$> p).run c = some (b, next) ↔ ∃ a, p.run c = some (a, next) ∧ f a = b := by
  have hmap : (f <$> p) = p >>= fun a => pure (f a) := rfl
  simp only [hmap, bind_run_iff, run_pure, Option.some.injEq, Prod.mk.injEq]
  constructor
  · rintro ⟨a, mid, h, rfl, rfl⟩
    exact ⟨a, h, rfl⟩
  · rintro ⟨a, h, rfl⟩
    exact ⟨a, next, h, rfl, rfl⟩

theorem exists_last (ts : List Token) {t : Token} {c next : Cursor}
    (h : Reads (ts ++ [t]) c next) : ∃ stop, Reads ts c stop ∧ t.ReadAt stop next := by
  obtain ⟨stop, hreads, hlast⟩ := (reads_append_iff ts [t] c next).1 h
  obtain ⟨_, hlast, ⟨⟩⟩ := (reads_cons_iff _ _ _ _).1 hlast
  exact ⟨stop, hreads, hlast⟩

def alternatives : List (String × Parser (Except Misdeclared Statement)) :=
  [("INST", Except.ok <$> instruction), ("COND", condition), ("VAR", Except.ok <$> assignment),
    ("EXEC_COND_MAP", Except.ok <$> executeUnderCondition),
    ("EXEC_INST", Except.ok <$> executeInstruction)]

theorem opens_of_alternative {a : String × Parser (Except Misdeclared Statement)}
    (ha : a ∈ alternatives) {c next : Cursor} {r : Except Misdeclared Statement}
    (h : (token a.2).run c = some (r, next)) : Opens a.1 c := by
  simp only [alternatives, List.mem_cons, List.not_mem_nil, or_false] at ha
  rcases ha with rfl | rfl | rfl | rfl | rfl
  · obtain ⟨s, h, -⟩ := (map_run_eq_some_iff _ _ _ _ _).1 h
    obtain ⟨_, _, _, _, hdeclares, -⟩ := (instruction_run_iff s c next).1 h
    exact hdeclares.opens (isWord_keyword (by decide))
  · obtain ⟨_, _, _, _, hdeclares, -⟩ := (condition_run_iff r c next).1 h
    exact hdeclares.opens (isWord_keyword (by decide))
  · obtain ⟨s, h, -⟩ := (map_run_eq_some_iff _ _ _ _ _).1 h
    obtain ⟨_, _, -, -, hreads, -⟩ := (assignment_run_iff s c next).1 h
    exact hreads.opens (isWord_keyword (by decide))
  · obtain ⟨s, h, -⟩ := (map_run_eq_some_iff _ _ _ _ _).1 h
    obtain ⟨_, _, -, -, hreads, -⟩ := (executeUnderCondition_run_iff s c next).1 h
    exact hreads.opens (isWord_keyword (by decide))
  · obtain ⟨s, h, -⟩ := (map_run_eq_some_iff _ _ _ _ _).1 h
    obtain ⟨_, -, hreads, -⟩ := (executeInstruction_run_iff s c next).1 h
    exact hreads.opens (isWord_keyword (by decide))

theorem statement_run_eq (c : Cursor) :
    (token statement).run c = alternatives.findSome? fun a => (token a.2).run c := by
  simp only [alternatives, statement, token_run, run_orElse, List.findSome?]
  cases (Except.ok <$> instruction).run c.skipSpaces with
  | some _ => rfl
  | none => cases condition.run c.skipSpaces with
    | some _ => rfl
    | none => cases (Except.ok <$> assignment).run c.skipSpaces with
      | some _ => rfl
      | none => cases (Except.ok <$> executeUnderCondition).run c.skipSpaces with
        | some _ => rfl
        | none => cases (Except.ok <$> executeInstruction).run c.skipSpaces <;> rfl

theorem statement_run_iff (c next : Cursor) (r : Except Misdeclared Statement) :
    (token statement).run c = some (r, next) ↔
      ∃ a ∈ alternatives, (token a.2).run c = some (r, next) := by
  rw [statement_run_eq]
  constructor
  · exact List.exists_of_findSome?_eq_some
  · rintro ⟨a, ha, hrun⟩
    cases hfound : alternatives.findSome? fun a => (token a.2).run c with
    | none =>
      rw [List.findSome?_eq_none_iff.1 hfound a ha] at hrun
      contradiction
    | some found =>
      obtain ⟨b, hb, hrun'⟩ := List.exists_of_findSome?_eq_some hfound
      have hkey := (opens_of_alternative ha hrun).unique (opens_of_alternative hb hrun')
      have hnodup : (alternatives.map Prod.fst).Nodup := by decide
      rw [List.inj_on_of_nodup_map hnodup ha hb hkey, hrun'] at hrun
      exact hrun

theorem statement_run_none {c : Cursor} (h : Opens "END" c) : (token statement).run c = none := by
  rw [Option.eq_none_iff_forall_ne_some]
  rintro ⟨r, next⟩ hrun
  obtain ⟨a, ha, hrun⟩ := (statement_run_iff c next r).1 hrun
  have hkeys : ∀ a ∈ alternatives, a.1 ≠ "END" := by
    have : ∀ k ∈ alternatives.map Prod.fst, k ≠ "END" := by decide
    exact fun a ha => this a.1 (List.mem_map_of_mem ha)
  exact hkeys a ha ((opens_of_alternative ha hrun).unique h)

/-- A statement is read as the tokens it opens with, its parameters one after the other, and a
semicolon. -/
structure Statement.ReadFrom (s : Statement) (c next : Cursor) : Prop where
  span : s.span = c.skipSpaces.position.spanTo next.position
  body : ∃ head mid stop, Reads (.word s.keyword :: head) c mid ∧
    Chain (token parameter) mid s.params stop ∧ (Token.mark ";").ReadAt stop next ∧
    s.Spelled (.word s.keyword :: head ++ s.params.flatMap Parameter.tokens ++ [.mark ";"])

theorem readFrom_of_run {s : Statement} {c next : Cursor}
    (h : (token statement).run c = some (.ok s, next)) : Statement.ReadFrom s c next := by
  obtain ⟨a, ha, h⟩ := (statement_run_iff c next _).1 h
  simp only [alternatives, List.mem_cons, List.not_mem_nil, or_false] at ha
  rcases ha with rfl | rfl | rfl | rfl | rfl
  · obtain ⟨_, h, ⟨⟩⟩ := (map_run_eq_some_iff _ _ _ _ _).1 h
    obtain ⟨name, word, place, params, hdeclares, rfl⟩ := (instruction_run_iff s c next).1 h
    obtain ⟨mid, stop, hhead, hchain, hlast⟩ := hdeclares.parts
    exact ⟨rfl, _, mid, stop, hhead, hchain, hlast,
      .instruction hdeclares.isName hdeclares.isAction hdeclares.reads.1⟩
  · obtain ⟨name, word, place, params, hdeclares, hok⟩ := (condition_run_iff _ c next).1 h
    obtain ⟨mid, stop, hhead, hchain, hlast⟩ := hdeclares.parts
    unfold conditionOf at hok
    split at hok
    · next hword =>
      cases hok
      subst hword
      exact ⟨rfl, _, mid, stop, hhead, hchain, hlast, .condition hdeclares.isName hdeclares.reads.1⟩
    · contradiction
  · obtain ⟨_, h, ⟨⟩⟩ := (map_run_eq_some_iff _ _ _ _ _).1 h
    obtain ⟨key, value, hkey, hvalue, hreads, rfl⟩ := (assignment_run_iff s c next).1 h
    obtain ⟨stop, hhead, hlast⟩ :=
      exists_last [.word "VAR", .word key, .mark "=", .text value] hreads
    exact ⟨rfl, _, stop, stop, hhead, .nil, hlast, .assign hkey hvalue⟩
  · obtain ⟨_, h, ⟨⟩⟩ := (map_run_eq_some_iff _ _ _ _ _).1 h
    obtain ⟨name, under, hname, hunder, hreads, rfl⟩ := (executeUnderCondition_run_iff s c next).1 h
    obtain ⟨stop, hhead, hlast⟩ :=
      exists_last [.word "EXEC_COND_MAP", .word name, .word "WITH_COND", .word under] hreads
    exact ⟨rfl, _, stop, stop, hhead, .nil, hlast, .executeUnder hname hunder⟩
  · obtain ⟨_, h, ⟨⟩⟩ := (map_run_eq_some_iff _ _ _ _ _).1 h
    obtain ⟨name, hname, hreads, rfl⟩ := (executeInstruction_run_iff s c next).1 h
    obtain ⟨stop, hhead, hlast⟩ := exists_last [.word "EXEC_INST", .word name] hreads
    exact ⟨rfl, _, stop, stop, hhead, .nil, hlast, .execute hname⟩

theorem spelled_of_run {s : Statement} {c next : Cursor}
    (h : (token statement).run c = some (.ok s, next)) :
    ∃ ts, s.Spelled ts ∧ Reads ts c next := by
  obtain ⟨-, head, mid, stop, hhead, hchain, hlast, hs⟩ := readFrom_of_run h
  exact ⟨_, hs, (hhead.append hchain.reads.2).append (.cons hlast .nil)⟩

theorem statement_run_of_ok {keyword : String} {p : Parser Statement} {c next : Cursor}
    {s : Statement} (ha : (keyword, Except.ok <$> p) ∈ alternatives)
    (h : (token p).run c = some (s, next)) : (token statement).run c = some (.ok s, next) :=
  (statement_run_iff c next _).2 ⟨_, ha, (map_run_eq_some_iff _ p _ _ _).2 ⟨s, h, rfl⟩⟩

theorem exists_run_of_spelled {s : Statement} {ts : List Token} {c next : Cursor}
    (hs : s.Spelled ts) (h : Reads ts c next) :
    ∃ r, (token statement).run c = some (.ok r, next) ∧ r.withoutSpans = s.withoutSpans := by
  cases hs with
  | @instruction name word params span hname hword hparams =>
    obtain ⟨qs, place, hdeclares, hqs⟩ := exists_declares hname hword hparams h
    have hrun := (instruction_run_iff _ c next).2 ⟨name, word, place, qs, hdeclares, rfl⟩
    have ha : ("INST", Except.ok <$> instruction) ∈ alternatives := by simp [alternatives]
    refine ⟨_, statement_run_of_ok ha hrun, ?_⟩
    simp only [Statement.withoutSpans, hqs]
  | @condition name params span hname hparams =>
    have hword : IsWord "condition" := isWord_of_all (by decide) (by decide)
    obtain ⟨qs, place, hdeclares, hqs⟩ := exists_declares hname hword hparams h
    have hrun := (condition_run_iff _ c next).2 ⟨name, _, place, qs, hdeclares, rfl⟩
    have ha : ("COND", Grammar.condition) ∈ alternatives := by simp [alternatives]
    refine ⟨_, (statement_run_iff c next _).2 ⟨_, ha, hrun⟩, ?_⟩
    simp only [Statement.withoutSpans, hqs]
  | @assign key value span hkey hvalue =>
    have hrun := (assignment_run_iff _ c next).2 ⟨key, value, hkey, hvalue, h, rfl⟩
    have ha : ("VAR", Except.ok <$> assignment) ∈ alternatives := by
      simp [alternatives]
    exact ⟨_, statement_run_of_ok ha hrun, rfl⟩
  | @execute name span hname =>
    have hrun := (executeInstruction_run_iff _ c next).2 ⟨name, hname, h, rfl⟩
    have ha : ("EXEC_INST", Except.ok <$> executeInstruction) ∈ alternatives := by
      simp [alternatives]
    exact ⟨_, statement_run_of_ok ha hrun, rfl⟩
  | @executeUnder name under span hname hunder =>
    have hrun := (executeUnderCondition_run_iff _ c next).2 ⟨name, under, hname, hunder, h, rfl⟩
    have ha : ("EXEC_COND_MAP", Except.ok <$> executeUnderCondition) ∈ alternatives := by
      simp [alternatives]
    exact ⟨_, statement_run_of_ok ha hrun, rfl⟩

/-! Statements one after the other. -/

theorem isValid_headTokens {keyword name word : String} (hk : IsWord keyword) (hname : IsWord name)
    (hword : IsWord word) : ∀ t ∈ headTokens keyword name word, t.IsValid := by
  simp only [headTokens, List.forall_mem_cons]
  exact ⟨hk, hname, by simp [Token.IsValid], hword, by simp⟩

theorem isValid_declaration {keyword name word : String} {params : List Parameter}
    (hk : IsWord keyword) (hname : IsWord name) (hword : IsWord word)
    (hparams : ∀ p ∈ params, p.IsWritable) :
    ∀ t ∈ headTokens keyword name word ++ params.flatMap Parameter.tokens ++ [.mark ";"],
      t.IsValid := by
  intro t ht
  simp only [List.mem_append, List.mem_flatMap, List.mem_singleton] at ht
  rcases ht with (ht | ⟨p, hp, ht⟩) | rfl
  · exact isValid_headTokens hk hname hword t ht
  · exact isValid_parameterTokens (hparams p hp) t ht
  · simp [Token.IsValid]

theorem isValid_of_spelled {s : Statement} {ts : List Token} (h : s.Spelled ts) :
    ∀ t ∈ ts, t.IsValid := by
  have hmark (m : String) (hm : m ∈ ["->", "-->", "=", ";"]) : (Token.mark m).IsValid := hm
  cases h with
  | instruction hname hword hparams =>
    exact isValid_declaration (isWord_keyword (by decide)) hname hword hparams
  | condition hname hparams =>
    have hword : IsWord "condition" := isWord_of_all (by decide) (by decide)
    exact isValid_declaration (isWord_keyword (by decide)) hname hword hparams
  | assign hkey hvalue =>
    simp only [List.forall_mem_cons]
    exact ⟨isWord_keyword (by decide), hkey.1, hmark _ (by decide), hvalue, hmark _ (by decide),
      by simp⟩
  | execute hname =>
    simp only [List.forall_mem_cons]
    exact ⟨isWord_keyword (by decide), hname, hmark _ (by decide), by simp⟩
  | executeUnder hname hunder =>
    have hwith : IsWord "WITH_COND" := isWord_of_all (by decide) (by decide)
    simp only [List.forall_mem_cons]
    exact ⟨isWord_keyword (by decide), hname, hwith, hunder, hmark _ (by decide), by simp⟩

theorem ne_nil_of_spelled {s : Statement} {ts : List Token} (h : s.Spelled ts) : ts ≠ [] := by
  cases h <;> simp

theorem isValid_of_spellings {ss : List Statement} {pieces : List (List Token)}
    (h : List.Forall₂ Statement.Spelled ss pieces) : ∀ t ∈ pieces.flatten, t.IsValid := by
  induction h with
  | nil => simp
  | cons hs _ ih =>
    intro t ht
    rcases List.mem_append.1 ht with ht | ht
    · exact isValid_of_spelled hs t ht
    · exact ih t ht

theorem spelled_of_chain {ss : List Statement} {c next : Cursor}
    (h : Chain (token statement) c (ss.map .ok) next) :
    ∃ pieces, List.Forall₂ Statement.Spelled ss pieces ∧ Reads pieces.flatten c next := by
  induction ss generalizing c with
  | nil =>
    cases h
    exact ⟨[], .nil, .nil⟩
  | cons s ss ih =>
    cases h with
    | cons first shorter rest =>
      obtain ⟨ts, hs, hreads⟩ := spelled_of_run first
      obtain ⟨pieces, hss, hrest⟩ := ih rest
      exact ⟨ts :: pieces, .cons hs hss, hreads.append hrest⟩

theorem exists_chain_of_spelled {ss : List Statement} {pieces : List (List Token)} {c next : Cursor}
    (hss : List.Forall₂ Statement.Spelled ss pieces) (h : Reads pieces.flatten c next) :
    ∃ rs : List Statement, Chain (token statement) c (rs.map .ok) next ∧
      rs.map Statement.withoutSpans = ss.map Statement.withoutSpans := by
  induction hss generalizing c with
  | nil =>
    cases (reads_nil_iff c next).1 h
    exact ⟨[], .nil, rfl⟩
  | @cons s ts ss pieces hs hss ih =>
    obtain ⟨mid, hreads, hrest⟩ := (reads_append_iff ts pieces.flatten c next).1 h
    obtain ⟨r, hrun, hr⟩ := exists_run_of_spelled hs hreads
    obtain ⟨rs, hchain, hrs⟩ := ih hrest
    have hshorter := hreads.length_lt (isValid_of_spelled hs) (ne_nil_of_spelled hs)
    refine ⟨r :: rs, .cons hrun hshorter hchain, ?_⟩
    rw [List.map_cons, List.map_cons, hr, hrs]

/-! Whole programs. -/

theorem program_run_iff (items : List (Except Misdeclared Statement)) (c next : Cursor) :
    Grammar.program.run c = some (items, next) ↔ ∃ first last stop,
      (Token.word "BEGIN").ReadAt c first ∧ (many (token statement)).run first = some (items, last) ∧
        (Token.word "END").ReadAt last stop ∧ stop.skipSpaces = next ∧ next.rest = [] := by
  simp only [Grammar.program, run_named, bind_run_iff, exists_unit, token_run, keyword_run_iff,
    atEnd_run_iff, run_pure, Option.some.injEq, Prod.mk.injEq]
  constructor
  · rintro ⟨first, hfirst, items, last, hmany, stop, hstop, _, ⟨rfl, hend⟩, rfl, rfl⟩
    exact ⟨first, last, stop, hfirst, hmany, hstop, rfl, hend⟩
  · rintro ⟨first, last, stop, hfirst, hmany, hstop, rfl, hend⟩
    exact ⟨first, hfirst, items, last, hmany, stop, hstop, _, ⟨rfl, hend⟩, rfl, rfl⟩

theorem mapM_id_eq_ok_iff (items : List (Except ε α)) (results : List α) :
    items.mapM id = .ok results ↔ items = results.map Except.ok := by
  induction items generalizing results with
  | nil => cases results <;> simp [pure, Except.pure]
  | cons item items ih =>
    rw [List.mapM_cons]
    cases item with
    | error e => cases results <;> simp [bind, Except.bind]
    | ok a =>
      cases results with
      | nil => cases items.mapM id <;> simp [bind, Except.bind, pure, Except.pure]
      | cons b results =>
        rw [List.map_cons, List.cons.injEq, ← ih results]
        cases items.mapM id <;> simp [bind, Except.bind, pure, Except.pure]

theorem parse_eq_ok_iff (source : String) (p : Program) :
    parse source = .ok p ↔ ∃ first last stop,
      (Token.word "BEGIN").ReadAt (start source) first ∧
        (many (token statement)).run first = some (p.statements.map .ok, last) ∧
        (Token.word "END").ReadAt last stop ∧ stop.skipSpaces.rest = [] ∧
        p.span = Position.spanTo {} stop.skipSpaces.position := by
  have hparse : parse source = .ok p ↔ ∃ next,
      Grammar.program.run (start source) = some (p.statements.map .ok, next) ∧
        p.span = Position.spanTo {} next.position := by
    unfold parse
    cases hrun : Grammar.program.run (start source) with
    | none => simp
    | some r =>
      obtain ⟨items, next⟩ := r
      simp only [Option.some.injEq, Prod.mk.injEq, ← mapM_id_eq_ok_iff]
      obtain ⟨statements, span⟩ := p
      cases items.mapM id with
      | error e => simp
      | ok results =>
        simp only [Except.ok.injEq, Program.mk.injEq]
        constructor
        · rintro ⟨rfl, rfl⟩
          exact ⟨next, ⟨rfl, rfl⟩, rfl⟩
        · rintro ⟨_, ⟨rfl, rfl⟩, rfl⟩
          exact ⟨rfl, rfl⟩
  simp only [hparse, program_run_iff]
  constructor
  · rintro ⟨next, ⟨first, last, stop, hbegin, hmany, hend, rfl, hrest⟩, hspan⟩
    exact ⟨first, last, stop, hbegin, hmany, hend, hrest, hspan⟩
  · rintro ⟨first, last, stop, hbegin, hmany, hend, hrest, hspan⟩
    exact ⟨_, ⟨first, last, stop, hbegin, hmany, hend, rfl, hrest⟩, hspan⟩

theorem renderedAs_iff_reads (source : String) (p : Program) :
    p.RenderedAs source ↔ ∃ pieces next, List.Forall₂ Statement.Spelled p.statements pieces ∧
      Reads (.word "BEGIN" :: pieces.flatten ++ [.word "END"]) (start source) next ∧
        IsGap next.rest := by
  unfold Program.RenderedAs
  refine exists_congr fun pieces => ?_
  rw [exists_and_left]
  refine and_congr_right fun hss => ?_
  have hvalid : ∀ t ∈ .word "BEGIN" :: pieces.flatten ++ [.word "END"], t.IsValid := by
    intro t ht
    simp only [List.cons_append, List.mem_cons, List.mem_append, List.not_mem_nil, or_false] at ht
    rcases ht with rfl | ht | rfl
    · exact isWord_keyword (by decide)
    · exact isValid_of_spellings hss t ht
    · exact isWord_keyword (by decide)
  have hlayout := layout_iff_reads hvalid false (start source)
  simpa [start] using hlayout

theorem isGap_iff (c : Cursor) : IsGap c.rest ↔ c.skipSpaces.rest = [] := by
  rw [Cursor.skipSpaces, Cursor.skipWhile, List.dropWhile_eq_nil_iff]
  rfl

theorem renderedAs_of_parse {source : String} {p : Program} (h : parse source = .ok p) :
    p.RenderedAs source := by
  obtain ⟨first, last, stop, hbegin, hmany, hend, hrest, -⟩ := (parse_eq_ok_iff source p).1 h
  obtain ⟨pieces, hss, hreads⟩ := spelled_of_chain (many_run_chain hmany)
  refine (renderedAs_iff_reads source p).2 ⟨pieces, stop, hss, ?_, (isGap_iff stop).2 hrest⟩
  exact .cons hbegin (hreads.append (.cons hend .nil))

theorem exists_parse_of_renderedAs {source : String} {p : Program} (h : p.RenderedAs source) :
    ∃ q, parse source = .ok q ∧ q.withoutSpans = p.withoutSpans := by
  obtain ⟨pieces, stop, hss, hreads, hgap⟩ := (renderedAs_iff_reads source p).1 h
  obtain ⟨first, hbegin, hreads⟩ := (reads_cons_iff _ _ _ _).1 hreads
  obtain ⟨last, hreads, hlast⟩ := (reads_append_iff _ _ _ _).1 hreads
  obtain ⟨_, hend, ⟨⟩⟩ := (reads_cons_iff _ _ _ _).1 hlast
  obtain ⟨rs, hchain, hrs⟩ := exists_chain_of_spelled hss hreads
  have hopens : Opens "END" last := ⟨isWord_keyword (by decide), stop, hend⟩
  refine ⟨⟨rs, _⟩, (parse_eq_ok_iff source _).2 ⟨first, last, stop, hbegin,
    hchain.many_run (statement_run_none hopens), hend, (isGap_iff stop).1 hgap, rfl⟩, ?_⟩
  rw [Program.withoutSpans, hrs]
  rfl

/-! Spans are no part of what is spelled. -/

theorem flatMap_tokens_withoutSpan (params : List Parameter) :
    (params.map Parameter.withoutSpan).flatMap Parameter.tokens =
      params.flatMap Parameter.tokens := by
  rw [List.flatMap_map]
  rfl

theorem forall_withoutSpan_isWritable (params : List Parameter) :
    (∀ p ∈ params.map Parameter.withoutSpan, p.IsWritable) ↔ ∀ p ∈ params, p.IsWritable := by
  rw [List.forall_mem_map]
  rfl

theorem spelled_instruction_iff (d : Instruction) (ts : List Token) :
    (Statement.instruction d).Spelled ts ↔ IsWord d.name ∧ (∀ p ∈ d.params, p.IsWritable) ∧
      ∃ word, IsWord word ∧ d.action = .ofKeyword (":" ++ word) ∧
        ts = headTokens "INST" d.name word ++ d.params.flatMap Parameter.tokens
          ++ [.mark ";"] := by
  constructor
  · intro h
    cases h with
    | instruction hname hword hparams => exact ⟨hname, hparams, _, hword, rfl, rfl⟩
  · obtain ⟨name, action, params, span⟩ := d
    rintro ⟨hname, hparams, word, hword, haction, rfl⟩
    obtain rfl : action = .ofKeyword (":" ++ word) := haction
    exact .instruction hname hword hparams

theorem spelled_condition_iff (d : Condition) (ts : List Token) :
    (Statement.condition d).Spelled ts ↔ IsWord d.name ∧ (∀ p ∈ d.params, p.IsWritable) ∧
      ts = headTokens "COND" d.name "condition" ++ d.params.flatMap Parameter.tokens
        ++ [.mark ";"] := by
  constructor
  · intro h
    cases h with
    | condition hname hparams => exact ⟨hname, hparams, rfl⟩
  · rintro ⟨hname, hparams, rfl⟩
    exact .condition hname hparams

theorem spelled_withoutSpans_iff (s : Statement) (ts : List Token) :
    s.withoutSpans.Spelled ts ↔ s.Spelled ts := by
  cases s with
  | instruction d =>
    simp only [Statement.withoutSpans, spelled_instruction_iff, flatMap_tokens_withoutSpan,
      forall_withoutSpan_isWritable]
  | condition d =>
    simp only [Statement.withoutSpans, spelled_condition_iff, flatMap_tokens_withoutSpan,
      forall_withoutSpan_isWritable]
  | assign key value span =>
    constructor
    · rintro ⟨⟩
      exact .assign ‹_› ‹_›
    · rintro ⟨⟩
      exact .assign ‹_› ‹_›
  | execute name under span =>
    constructor
    · intro h
      cases h with
      | execute hname => exact .execute hname
      | executeUnder hname hunder => exact .executeUnder hname hunder
    · intro h
      cases h with
      | execute hname => exact .execute hname
      | executeUnder hname hunder => exact .executeUnder hname hunder

theorem renderedAs_congr {source : String} {p q : Program} (h : p.withoutSpans = q.withoutSpans)
    (hp : p.RenderedAs source) : q.RenderedAs source := by
  have hstatements : p.statements.map Statement.withoutSpans =
      q.statements.map Statement.withoutSpans := congrArg Program.statements h
  have hspell (ss : List Statement) (pieces : List (List Token)) :
      List.Forall₂ Statement.Spelled (ss.map Statement.withoutSpans) pieces ↔
        List.Forall₂ Statement.Spelled ss pieces := by
    simp only [List.forall₂_map_left_iff, spelled_withoutSpans_iff]
  obtain ⟨pieces, hss, hlayout⟩ := hp
  refine ⟨pieces, ?_, hlayout⟩
  rwa [← hspell, ← hstatements, hspell]

/-- A text is parsed into a program, up to spans, if and only if it renders the
program; so no text denotes two programs. -/
theorem parse_eq_ok_iff_renderedAs (source : String) :
    (∀ p : Program, (∃ q, parse source = .ok q ∧ q.withoutSpans = p.withoutSpans) ↔
        p.RenderedAs source) ∧
      ∀ p q : Program, p.RenderedAs source → q.RenderedAs source →
        p.withoutSpans = q.withoutSpans := by
  refine ⟨fun p => ⟨?_, exists_parse_of_renderedAs⟩, fun p q hp hq => ?_⟩
  · rintro ⟨q, hq, hspans⟩
    exact renderedAs_congr hspans (renderedAs_of_parse hq)
  · obtain ⟨r, hr, hrp⟩ := exists_parse_of_renderedAs hp
    obtain ⟨r', hr', hrq⟩ := exists_parse_of_renderedAs hq
    cases hr.symm.trans hr'
    exact hrp.symm.trans hrq

end SimpleFiles.Source
