import SimpleFiles.Proofs.Source.Reading

/-! What the parsers of parameters, statements and programs read, in tokens. -/
namespace SimpleFiles.Source

open Grammar SimpleFiles.Source.Parser

theorem spanned_run_iff (p : Parser α) (c next : Cursor) (a : α) (span : Span) :
    (spanned p).run c = some ((a, span), next) ↔
      p.run c = some (a, next) ∧ span = c.position.spanTo next.position := by
  simp only [spanned_run, Option.map_eq_some_iff, Prod.mk.injEq, Prod.exists]
  constructor
  · rintro ⟨a, next, h, ⟨rfl, rfl⟩, rfl⟩
    exact ⟨h, rfl⟩
  · rintro ⟨h, rfl⟩
    exact ⟨a, next, h, ⟨rfl, rfl⟩, rfl⟩

theorem parameter_run_iff (p : Parameter) (c next : Cursor) :
    (token parameter).run c = some (p, next) ↔ p.IsWritable ∧ Reads p.tokens c next ∧
      p.span = c.skipSpaces.position.spanTo next.position := by
  simp only [parameter, token_run, bind_run_iff, exists_unit, Prod.exists, spanned_run_iff,
    run_named, run_pure, mark_run_iff, parameterKey_run_iff, text_run_iff, Option.some.injEq,
    Prod.mk.injEq, Parameter.tokens, reads_cons_iff, reads_nil_iff, Token.ReadAt]
  constructor
  · rintro ⟨_, _, _, _, ⟨⟨a, harrow, key, b, ⟨hkey, hb⟩, d, heq, value, next, ⟨hvalue, htext⟩,
      ⟨rfl, rfl⟩, rfl⟩, rfl⟩, rfl, rfl⟩
    exact ⟨⟨hkey, hvalue⟩, ⟨a, harrow, b, hb, d, heq, next, htext, rfl⟩, rfl⟩
  · rintro ⟨⟨hkey, hvalue⟩, ⟨a, harrow, b, hb, d, heq, mid, htext, rfl⟩, hspan⟩
    exact ⟨p.key, p.value, p.span, mid, ⟨⟨a, harrow, p.key, b, ⟨hkey, hb⟩, d, heq, p.value, mid,
      ⟨hvalue, htext⟩, ⟨rfl, rfl⟩, rfl⟩, hspan⟩, rfl, rfl⟩

/-- A parser that reads one value after the other, each from a nonempty piece of text. -/
inductive Chain (p : Parser α) : Cursor → List α → Cursor → Prop
  | nil {c : Cursor} : Chain p c [] c
  | cons {a : α} {as : List α} {c mid next : Cursor} (first : p.run c = some (a, mid))
      (shorter : mid.rest.length < c.rest.length) (rest : Chain p mid as next) :
      Chain p c (a :: as) next

theorem many_run_chain {p : Parser α} {c next : Cursor} {as : List α}
    (h : (many p).run c = some (as, next)) : Chain p c as next := by
  simp only [many, Option.some.injEq] at h
  fun_induction manyRun p.run c generalizing as next with
  | case1 c hnone =>
    cases h
    exact .nil
  | case2 c a mid hsome hlt bs last hrest ih =>
    cases h
    exact .cons hsome hlt (ih hrest)
  | case3 c a mid hsome hle =>
    cases h
    exact .nil

theorem Chain.many_run {p : Parser α} {c next : Cursor} {as : List α} (h : Chain p c as next)
    (hstop : p.run next = none) : (many p).run c = some (as, next) := by
  simp only [many, Option.some.injEq]
  induction h with
  | nil => rw [manyRun, hstop]
  | cons first shorter rest ih => simp [manyRun, first, shorter, ih hstop]

theorem Token.ReadAt.length_lt {t : Token} {c next : Cursor} (h : t.ReadAt c next)
    (ht : t.IsValid) : next.rest.length < c.rest.length := by
  obtain ⟨gap, -, hrest⟩ := exists_gap c
  obtain ⟨a, chars, ha, -, -⟩ := ht.exists_cons
  rw [h.passes.text, ha] at hrest
  simp only [hrest, List.length_append, List.length_cons]
  omega

theorem Reads.length_le {ts : List Token} {c next : Cursor} (h : Reads ts c next)
    (hts : ∀ t ∈ ts, t.IsValid) : next.rest.length ≤ c.rest.length := by
  induction h with
  | nil => exact le_rfl
  | @cons t ts c mid next first rest ih =>
    have hlt := first.length_lt (hts t (.head ts))
    have hle := ih fun u hu => hts u (.tail t hu)
    omega

theorem Reads.length_lt {ts : List Token} {c next : Cursor} (h : Reads ts c next)
    (hts : ∀ t ∈ ts, t.IsValid) (hne : ts ≠ []) : next.rest.length < c.rest.length := by
  cases h with
  | nil => exact absurd rfl hne
  | @cons t ts _ mid _ first rest =>
    have hlt := first.length_lt (hts t (.head ts))
    have hle := rest.length_le fun u hu => hts u (.tail t hu)
    omega

theorem isValid_parameterTokens {p : Parameter} (h : p.IsWritable) :
    ∀ t ∈ p.tokens, t.IsValid := by
  intro t ht
  simp only [Parameter.tokens, List.mem_cons, List.not_mem_nil, or_false] at ht
  rcases ht with rfl | rfl | rfl | rfl
  · simp [Token.IsValid]
  · exact h.1.1
  · simp [Token.IsValid]
  · exact h.2

theorem Chain.reads {ps : List Parameter} {c next : Cursor} (h : Chain (token parameter) c ps next) :
    (∀ p ∈ ps, p.IsWritable) ∧ Reads (ps.flatMap Parameter.tokens) c next := by
  induction h with
  | nil => exact ⟨by simp, .nil⟩
  | @cons p ps c mid next first shorter rest ih =>
    obtain ⟨hp, hreads, -⟩ := (parameter_run_iff p c mid).1 first
    refine ⟨by simpa using ⟨hp, ih.1⟩, ?_⟩
    rw [List.flatMap_cons, reads_append_iff]
    exact ⟨mid, hreads, ih.2⟩

theorem exists_chain {ps : List Parameter} {c next : Cursor} (hps : ∀ p ∈ ps, p.IsWritable)
    (h : Reads (ps.flatMap Parameter.tokens) c next) :
    ∃ qs, Chain (token parameter) c qs next ∧
      qs.map Parameter.withoutSpan = ps.map Parameter.withoutSpan := by
  induction ps generalizing c with
  | nil =>
    cases (reads_nil_iff c next).1 h
    exact ⟨[], .nil, rfl⟩
  | cons p ps ih =>
    have hp : p.IsWritable := hps p (.head ps)
    rw [List.flatMap_cons, reads_append_iff] at h
    obtain ⟨mid, hreads, hrest⟩ := h
    obtain ⟨qs, hchain, hqs⟩ := ih (fun q hq => hps q (.tail p hq)) hrest
    let q : Parameter := { p with span := c.skipSpaces.position.spanTo mid.position }
    have hshorter := hreads.length_lt (isValid_parameterTokens hp) (by simp [Parameter.tokens])
    refine ⟨q :: qs, .cons ((parameter_run_iff q c mid).2 ⟨hp, hreads, rfl⟩) hshorter hchain, ?_⟩
    rw [List.map_cons, List.map_cons, hqs]
    rfl

/-! Two tokens read at one place agree in their first character, and two words
are the same. -/

theorem Token.ReadAt.head? {t u : Token} {c m n : Cursor} (h : t.ReadAt c m) (h' : u.ReadAt c n)
    (ht : t.IsValid) (hu : u.IsValid) : t.chars.head? = u.chars.head? := by
  obtain ⟨a, as, ha, -, -⟩ := ht.exists_cons
  obtain ⟨b, bs, hb, -, -⟩ := hu.exists_cons
  have htext := h.passes.text.symm.trans h'.passes.text
  rw [ha, hb] at htext ⊢
  simpa using congrArg List.head? htext

theorem word_unique {s r : String} {c m n : Cursor} (h : (Token.word s).ReadAt c m)
    (h' : (Token.word r).ReadAt c n) (hs : IsWord s) (hr : IsWord r) : s = r := by
  have hrun := ((skipWhile_eq_iff isWordChar c.skipSpaces m s.toList).2
    ⟨hs.2, h.passes, h.ends rfl⟩).1
  have hrun' := ((skipWhile_eq_iff isWordChar c.skipSpaces n r.toList).2
    ⟨hr.2, h'.passes, h'.ends rfl⟩).1
  exact String.toList_inj.1 (hrun.symm.trans hrun')

theorem parameter_run_none {c stop : Cursor} (h : (Token.mark ";").ReadAt c stop) :
    (token parameter).run c = none := by
  rw [Option.eq_none_iff_forall_ne_some]
  rintro ⟨p, next⟩ hrun
  obtain ⟨-, hreads, -⟩ := (parameter_run_iff p c next).1 hrun
  obtain ⟨mid, harrow, -⟩ := (reads_cons_iff _ _ _ _).1 hreads
  have := harrow.head? h (by simp [Token.IsValid]) (by simp [Token.IsValid])
  revert this
  decide

/-! Declarations: a keyword, a name and an action, then parameters. -/

def headTokens (keyword name word : String) : List Token :=
  [.word keyword, .word name, .mark "->", .action word]

/-- What the parsers of instructions and conditions have in common, with the span
of the action. -/
structure Declares (keyword : String) (c : Cursor) (name word : String) (place : Span)
    (params : List Parameter) (next : Cursor) : Prop where
  isName : IsWord name
  isAction : IsWord word
  body : ∃ before mid stop, Reads [.word keyword, .word name, .mark "->"] c before ∧
    (Token.action word).ReadAt before mid ∧ mid.AtWordEnd ∧
    place = before.skipSpaces.position.spanTo mid.position ∧
    (many (token parameter)).run mid = some (params, stop) ∧ (Token.mark ";").ReadAt stop next

theorem Declares.parts {keyword name word : String} {place : Span} {params : List Parameter}
    {c next : Cursor} (h : Declares keyword c name word place params next) :
    ∃ mid stop, Reads (headTokens keyword name word) c mid ∧
      Chain (token parameter) mid params stop ∧ (Token.mark ";").ReadAt stop next := by
  obtain ⟨-, -, before, mid, stop, hhead, haction, -, -, hmany, hlast⟩ := h
  exact ⟨mid, stop, hhead.append (.cons haction .nil), many_run_chain hmany, hlast⟩

theorem Declares.reads {keyword name word : String} {place : Span} {params : List Parameter}
    {c next : Cursor} (h : Declares keyword c name word place params next) :
    (∀ p ∈ params, p.IsWritable) ∧
      Reads (headTokens keyword name word ++ params.flatMap Parameter.tokens ++ [.mark ";"])
        c next := by
  obtain ⟨mid, stop, hhead, hchain, hlast⟩ := h.parts
  obtain ⟨hparams, hreads⟩ := hchain.reads
  exact ⟨hparams, (hhead.append hreads).append (.cons hlast .nil)⟩

theorem exists_declares {keyword name word : String} {params : List Parameter} {c next : Cursor}
    (hname : IsWord name) (hword : IsWord word) (hparams : ∀ p ∈ params, p.IsWritable)
    (h : Reads (headTokens keyword name word ++ params.flatMap Parameter.tokens ++ [.mark ";"])
      c next) :
    ∃ qs place, Declares keyword c name word place qs next ∧
      qs.map Parameter.withoutSpan = params.map Parameter.withoutSpan := by
  rw [headTokens, List.append_assoc] at h
  simp only [List.cons_append, List.nil_append, reads_append_iff, reads_cons_iff,
    reads_nil_iff] at h
  obtain ⟨a, ha, b, hb, before, hd, mid, haction, stop, hreads, _, hlast, rfl⟩ := h
  have hend : mid.AtWordEnd := by
    cases params with
    | nil =>
      cases (reads_nil_iff mid stop).1 hreads
      exact hlast.atWordEnd (by simp [Token.IsValid]) rfl
    | cons p params =>
      obtain ⟨_, harrow, -⟩ := (reads_cons_iff _ _ _ _).1 hreads
      exact harrow.atWordEnd (by simp [Token.IsValid]) rfl
  obtain ⟨qs, hchain, hqs⟩ := exists_chain hparams hreads
  exact ⟨qs, _, ⟨hname, hword, before, mid, stop, .cons ha (.cons hb (.cons hd .nil)), haction,
    hend, rfl, hchain.many_run (parameter_run_none hlast), hlast⟩, hqs⟩

theorem instruction_run_iff (s : Statement) (c next : Cursor) :
    (token instruction).run c = some (s, next) ↔ ∃ name word place params,
      Declares "INST" c name word place params next ∧
        s = .instruction ⟨name, .ofKeyword (":" ++ word), params,
          c.skipSpaces.position.spanTo next.position⟩ := by
  simp only [instruction, token_run, bind_run_iff, exists_unit, Prod.exists, spanned_run_iff,
    run_named, run_pure, mark_run_iff, keyword_run_iff, name_run_iff, action_run_iff,
    Option.some.injEq, Prod.mk.injEq]
  constructor
  · rintro ⟨_, _, _, _, _, ⟨⟨a, ha, name, b, ⟨hname, hb⟩, before, hd, word, mid, ⟨hword, hmid, hend⟩,
      params, stop, hmany, next, hlast, ⟨rfl, rfl, rfl⟩, rfl⟩, rfl⟩, rfl, rfl⟩
    exact ⟨name, word, _, params, ⟨hname, hword, before, mid, stop,
      .cons ha (.cons hb (.cons hd .nil)), hmid, hend, rfl, hmany, hlast⟩, rfl⟩
  · rintro ⟨name, word, place, params, ⟨hname, hword, before, mid, stop, hhead, hmid, hend, -,
      hmany, hlast⟩, rfl⟩
    simp only [reads_cons_iff, reads_nil_iff] at hhead
    obtain ⟨a, ha, b, hb, before, hd, rfl⟩ := hhead
    exact ⟨name, word, params, _, next, ⟨⟨a, ha, name, b, ⟨hname, hb⟩, before, hd, word, mid,
      ⟨hword, hmid, hend⟩, params, stop, hmany, next, hlast, ⟨rfl, rfl, rfl⟩, rfl⟩, rfl⟩, rfl, rfl⟩

def conditionOf (name word : String) (place : Span) (params : List Parameter) (span : Span) :
    Except Misdeclared Statement :=
  if word = "condition" then .ok (.condition ⟨name, params, span⟩)
  else .error ⟨name, ":" ++ word, place⟩

theorem pure_conditionOf (name word : String) (place : Span) (params : List Parameter)
    (span : Span) :
    (if word = "condition" then return .ok (.condition ⟨name, params, span⟩)
      else return .error ⟨name, ":" ++ word, place⟩ : Parser (Except Misdeclared Statement)) =
      pure (conditionOf name word place params span) := by
  unfold conditionOf
  split <;> rfl

theorem condition_run_iff (r : Except Misdeclared Statement) (c next : Cursor) :
    (token condition).run c = some (r, next) ↔ ∃ name word place params,
      Declares "COND" c name word place params next ∧
        r = conditionOf name word place params (c.skipSpaces.position.spanTo next.position) := by
  simp only [condition, pure_conditionOf, token_run, bind_run_iff, exists_unit, Prod.exists, spanned_run_iff,
    run_named, run_pure, mark_run_iff, keyword_run_iff, name_run_iff, action_run_iff,
    Option.some.injEq, Prod.mk.injEq]
  constructor
  · rintro ⟨_, _, _, _, _, _, ⟨⟨a, ha, name, b, ⟨hname, hb⟩, before, hd, word, _, mid,
      ⟨⟨hword, hmid, hend⟩, rfl⟩, params, stop, hmany, next, hlast, ⟨rfl, ⟨rfl, rfl⟩, rfl⟩, rfl⟩,
      rfl⟩, rfl, rfl⟩
    exact ⟨name, word, _, params, ⟨hname, hword, before, mid, stop,
      .cons ha (.cons hb (.cons hd .nil)), hmid, hend, rfl, hmany, hlast⟩, rfl⟩
  · rintro ⟨name, word, place, params, ⟨hname, hword, before, mid, stop, hhead, hmid, hend, hplace,
      hmany, hlast⟩, rfl⟩
    simp only [reads_cons_iff, reads_nil_iff] at hhead
    obtain ⟨a, ha, b, hb, before, hd, rfl⟩ := hhead
    exact ⟨name, word, place, params, _, next, ⟨⟨a, ha, name, b, ⟨hname, hb⟩, before, hd, word, place,
      mid, ⟨⟨hword, hmid, hend⟩, hplace⟩, params, stop, hmany, next, hlast, ⟨rfl, ⟨rfl, rfl⟩, rfl⟩,
      rfl⟩, rfl⟩, rfl, rfl⟩

theorem assignment_run_iff (s : Statement) (c next : Cursor) :
    (token assignment).run c = some (s, next) ↔ ∃ key value, IsKey key ∧ IsQuotable value ∧
      Reads [.word "VAR", .word key, .mark "=", .text value, .mark ";"] c next ∧
        s = .assign key value (c.skipSpaces.position.spanTo next.position) := by
  simp only [assignment, token_run, bind_run_iff, exists_unit, Prod.exists, spanned_run_iff,
    run_named, run_pure, mark_run_iff, keyword_run_iff, parameterKey_run_iff, text_run_iff,
    Option.some.injEq, Prod.mk.injEq, reads_cons_iff, reads_nil_iff, Token.ReadAt]
  constructor
  · rintro ⟨_, _, _, _, ⟨⟨a, ha, key, b, ⟨hkey, hb⟩, d, hd, value, e, ⟨hvalue, he⟩, next, hlast,
      ⟨rfl, rfl⟩, rfl⟩, rfl⟩, rfl, rfl⟩
    exact ⟨key, value, hkey, hvalue, ⟨a, ha, b, hb, d, hd, e, he, next, hlast, rfl⟩, rfl⟩
  · rintro ⟨key, value, hkey, hvalue, ⟨a, ha, b, hb, d, hd, e, he, next, hlast, rfl⟩, rfl⟩
    exact ⟨key, value, _, next, ⟨⟨a, ha, key, b, ⟨hkey, hb⟩, d, hd, value, e, ⟨hvalue, he⟩, next,
      hlast, ⟨rfl, rfl⟩, rfl⟩, rfl⟩, rfl, rfl⟩

theorem executeInstruction_run_iff (s : Statement) (c next : Cursor) :
    (token executeInstruction).run c = some (s, next) ↔ ∃ name, IsWord name ∧
      Reads [.word "EXEC_INST", .word name, .mark ";"] c next ∧
        s = .execute name none (c.skipSpaces.position.spanTo next.position) := by
  simp only [executeInstruction, token_run, bind_run_iff, exists_unit, Prod.exists, spanned_run_iff,
    run_named, run_pure, mark_run_iff, keyword_run_iff, name_run_iff,
    Option.some.injEq, Prod.mk.injEq, reads_cons_iff, reads_nil_iff, Token.ReadAt]
  constructor
  · rintro ⟨_, _, _, ⟨⟨a, ha, name, b, ⟨hname, hb⟩, next, hlast, rfl, rfl⟩, rfl⟩, rfl, rfl⟩
    exact ⟨name, hname, ⟨a, ha, b, hb, next, hlast, rfl⟩, rfl⟩
  · rintro ⟨name, hname, ⟨a, ha, b, hb, next, hlast, rfl⟩, rfl⟩
    exact ⟨name, _, next, ⟨⟨a, ha, name, b, ⟨hname, hb⟩, next, hlast, rfl, rfl⟩, rfl⟩, rfl, rfl⟩

theorem executeUnderCondition_run_iff (s : Statement) (c next : Cursor) :
    (token executeUnderCondition).run c = some (s, next) ↔ ∃ name under, IsWord name ∧
      IsWord under ∧
      Reads [.word "EXEC_COND_MAP", .word name, .word "WITH_COND", .word under, .mark ";"] c next ∧
        s = .execute name (some under) (c.skipSpaces.position.spanTo next.position) := by
  simp only [executeUnderCondition, token_run, bind_run_iff, exists_unit, Prod.exists,
    spanned_run_iff, run_named, run_pure, mark_run_iff, keyword_run_iff, name_run_iff,
    Option.some.injEq, Prod.mk.injEq, reads_cons_iff, reads_nil_iff, Token.ReadAt]
  constructor
  · rintro ⟨_, _, _, _, ⟨⟨a, ha, name, b, ⟨hname, hb⟩, d, hd, under, e, ⟨hunder, he⟩, next, hlast,
      ⟨rfl, rfl⟩, rfl⟩, rfl⟩, rfl, rfl⟩
    exact ⟨name, under, hname, hunder, ⟨a, ha, b, hb, d, hd, e, he, next, hlast, rfl⟩, rfl⟩
  · rintro ⟨name, under, hname, hunder, ⟨a, ha, b, hb, d, hd, e, he, next, hlast, rfl⟩, rfl⟩
    exact ⟨name, under, _, next, ⟨⟨a, ha, name, b, ⟨hname, hb⟩, d, hd, under, e, ⟨hunder, he⟩, next,
      hlast, ⟨rfl, rfl⟩, rfl⟩, rfl⟩, rfl, rfl⟩

end SimpleFiles.Source
