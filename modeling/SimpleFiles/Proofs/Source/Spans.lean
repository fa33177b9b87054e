import SimpleFiles.Proofs.Program.Json
import SimpleFiles.Proofs.Source.Places
import SimpleFiles.Proofs.Source.Programs

/-! The spans of a parsed program. They cut the source into the statements and
their parameters, with nothing but spaces between these, and what the span of a
statement cuts out denotes that statement again. -/
namespace SimpleFiles

namespace Span

def ends (s : Span) : List Source.Position := [s.first, s.last]

/-- One span lies inside another one, apart from both of its ends. -/
def Encloses (s t : Span) : Prop := s.start < t.start ∧ t.stop < s.stop

end Span

theorem Statement.spans_eq (s : Statement) : s.spans = s.span :: s.params.map Parameter.span := by
  cases s <;> rfl

namespace Source

open Grammar SimpleFiles.Source.Parser

/-- A text spells a parameter, from the arrow to the closing quote. -/
def SpellsParameter (p : Parameter) (text : List Char) : Prop :=
  IsQuotable p.value ∧ ∃ beforeKey afterKey beforeText,
    IsGap beforeKey ∧ IsGap afterKey ∧ IsGap beforeText ∧
      text = "-->".toList ++ beforeKey ++ p.key.toList ++ afterKey ++ "=".toList ++ beforeText
        ++ '"' :: (p.value.toList ++ ['"'])

/-- What the spans of a statement and of its parameters cut out of the source. -/
structure CutsStatement (source : String) (s : Statement) : Prop where
  opened : s.keyword.toList <+: (slice source s.span).toList
  closed : [';'] <:+ (slice source s.span).toList
  reparsed : ∃ q, parse ("BEGIN " ++ slice source s.span ++ " END") = .ok q ∧
    q.statements.map Statement.withoutSpans = [s.withoutSpans]
  ordered : (s.params.map Parameter.span).Pairwise Span.Precedes
  enclosed : ∀ p ∈ s.params, s.span.Encloses p.span
  spelled : ∀ p ∈ s.params, SpellsParameter p (slice source p.span).toList

/-- What the spans of a program cut out of its source, and where they lie. -/
structure CutsProgram (source : String) (p : Program) : Prop where
  whole : p.span.start = 0 ∧ p.span.stop = source.utf8ByteSize
  separated : ∃ opening closing,
    Follow source 0 (opening :: p.statements.map Statement.span ++ [closing]) closing.stop ∧
      slice source opening = "BEGIN" ∧ slice source closing = "END" ∧
      IsGap (textBetween source closing.stop source.utf8ByteSize)
  ordered : (p.statements.map Statement.span).Pairwise Span.Precedes
  statements : ∀ s ∈ p.statements, CutsStatement source s
  placed : ∀ s ∈ p.spans, IsPlaced source s
  increasing : ∀ a ∈ p.spans.flatMap Span.ends, ∀ b ∈ p.spans.flatMap Span.ends,
    a.offset < b.offset → a.Before b

/-! What stands between two cursors. -/

theorem passes_nil (c : Cursor) : Passes c [] c := ⟨rfl, rfl⟩

theorem Passes.unique {c next : Cursor} {as bs : List Char} (h : Passes c as next)
    (h' : Passes c bs next) : as = bs :=
  List.append_cancel_right (h.text.symm.trans h'.text)

theorem exists_gap_passes (c : Cursor) : ∃ gap, IsGap gap ∧ Passes c gap c.skipSpaces := by
  obtain ⟨hgap, passes, -⟩ := (skipWhile_eq_iff isSpace c c.skipSpaces _).1 ⟨rfl, rfl⟩
  exact ⟨_, hgap, passes⟩

theorem Reads.exists_layout {ts : List Token} {c next : Cursor} (h : Reads ts c next)
    (hts : ∀ t ∈ ts, t.IsValid) (afterWord : Bool) (hafter : afterWord → c.AtWordEnd) :
    ∃ text, Passes c text next ∧ Layout afterWord ts text := by
  induction h generalizing afterWord with
  | nil => exact ⟨[], passes_nil _, .done nofun⟩
  | @cons t ts c mid next first rest ih =>
    obtain ⟨gap, hgap, hpass⟩ := exists_gap_passes c
    obtain ⟨text, hrest, hlaid⟩ := ih (fun u hu => hts u (.tail t hu)) t.isWord first.ends
    refine ⟨gap ++ t.chars ++ text, (hpass.append first.passes).append hrest, .token hgap ?_ hlaid⟩
    intro hw ht hnil
    obtain ⟨a, chars, ha, -, hword⟩ := (hts t (.head ts)).exists_cons
    have hend := hafter hw
    have htext : c.rest = a :: (chars ++ mid.rest) := by
      rw [hpass.text, first.passes.text, hnil, ha]
      rfl
    simp [Cursor.AtWordEnd, htext, hword, ht] at hend

theorem Reads.exists_passes {ts : List Token} {c next : Cursor} (h : Reads ts c next) :
    ∃ text, Passes c text next := by
  induction h with
  | nil => exact ⟨[], passes_nil _⟩
  | @cons t ts c mid next first rest ih =>
    obtain ⟨gap, -, hpass⟩ := exists_gap_passes c
    obtain ⟨text, hrest⟩ := ih
    exact ⟨_, (hpass.append first.passes).append hrest⟩

theorem Cursor.skipSpaces_skipSpaces (c : Cursor) : c.skipSpaces.skipSpaces = c.skipSpaces := by
  obtain ⟨-, -, stop⟩ := (skipWhile_eq_iff isSpace c c.skipSpaces _).1 ⟨rfl, rfl⟩
  exact ((skipWhile_eq_iff isSpace c.skipSpaces c.skipSpaces []).2
    ⟨nofun, passes_nil _, stop⟩).2

theorem Reads.skipSpaces {t : Token} {ts : List Token} {c next : Cursor}
    (h : Reads (t :: ts) c next) : Reads (t :: ts) c.skipSpaces next := by
  obtain ⟨mid, first, rest⟩ := (reads_cons_iff t ts c next).1 h
  have again : t.Starts c.skipSpaces.skipSpaces mid := c.skipSpaces_skipSpaces.symm ▸ first
  exact .cons again rest

theorem parameter_spelled {p : Parameter} {c next : Cursor}
    (h : (token parameter).run c = some (p, next)) :
    ∃ text, SpellsParameter p text ∧ Passes c.skipSpaces text next := by
  obtain ⟨hp, hreads, -⟩ := (parameter_run_iff p c next).1 h
  simp only [Parameter.tokens, reads_cons_iff, reads_nil_iff] at hreads
  obtain ⟨a, harrow, b, hkey, d, hequals, _, htext, rfl⟩ := hreads
  obtain ⟨beforeKey, hgap, hpass⟩ := exists_gap_passes a
  obtain ⟨afterKey, hgap', hpass'⟩ := exists_gap_passes b
  obtain ⟨beforeText, hgap'', hpass''⟩ := exists_gap_passes d
  have hwhole := ((((((harrow.passes.append hpass).append hkey.passes).append hpass').append
    hequals.passes).append hpass'').append htext.passes)
  exact ⟨_, ⟨hp.2, beforeKey, afterKey, beforeText, hgap, hgap', hgap'', rfl⟩, hwhole⟩

theorem SpellsParameter.ne_nil {p : Parameter} {text : List Char} (h : SpellsParameter p text) :
    text ≠ [] := by
  obtain ⟨-, beforeKey, afterKey, beforeText, -, -, -, rfl⟩ := h
  simp

/-! Items read one after the other. -/

/-- The span of an item runs from its first character to its last one. -/
structure Covers (s : Span) (c next : Cursor) : Prop where
  span : s = c.skipSpaces.position.spanTo next.position
  passes : ∃ text ≠ [], Passes c.skipSpaces text next

theorem Covers.follow {source : String} {before : List Char} {s : Span} {c next : Cursor}
    (h : Covers s c next) (hc : c.Stands source before) :
    Follow source c.position.offset [s] next.position.offset ∧
      ∃ after, next.Stands source after := by
  obtain ⟨rfl, text, hne, hpass⟩ := h
  obtain ⟨gap, hgap, hskip⟩ := exists_gap_passes c
  have hstart := hc.passes hskip
  have hmarks := hstart.marks hpass
  have first : c.position.offset = String.utf8Len before := congrArg Position.offset hc.position
  refine ⟨⟨⟨?_, ?_⟩, hmarks.start_lt_stop hne, rfl⟩, _, hstart.passes hpass⟩
  · rw [first, hmarks.start_eq, String.utf8Len_append]
    omega
  · rw [first, hmarks.start_eq, textBetween_eq hstart.text]
    exact hgap

/-- The spans of items that are read one after the other follow one another, and each item
is read somewhere in the text. -/
theorem Chain.follow {p : Parser α} {spanOf : β → Span} {item : β → α} {bs : List β}
    {c next : Cursor} (h : Chain p c (bs.map item) next)
    (hp : ∀ b c next, p.run c = some (item b, next) → Covers (spanOf b) c next)
    {source : String} {before : List Char} (hc : c.Stands source before) :
    Follow source c.position.offset (bs.map spanOf) next.position.offset ∧
      (∃ after, next.Stands source after) ∧
      ∀ b ∈ bs, ∃ c next before, c.Stands source before ∧ p.run c = some (item b, next) := by
  induction bs generalizing c before with
  | nil =>
    cases h
    exact ⟨rfl, ⟨before, hc⟩, nofun⟩
  | cons b bs ih =>
    cases h with
    | @cons _ _ _ mid _ first shorter rest =>
      obtain ⟨hfollow, after, hmid⟩ := (hp b c mid first).follow hc
      obtain ⟨hrest, hnext, hall⟩ := ih rest hmid
      refine ⟨hfollow.append hrest, hnext, ?_⟩
      exact List.forall_mem_cons.mpr ⟨⟨c, mid, before, hc, first⟩, hall⟩

theorem covers_parameter (p : Parameter) (c next : Cursor)
    (h : (token parameter).run c = some (p, next)) : Covers p.span c next := by
  obtain ⟨text, hspelled, hpass⟩ := parameter_spelled h
  exact ⟨((parameter_run_iff p c next).1 h).2.2, text, hspelled.ne_nil, hpass⟩

/-! One statement. -/

theorem Layout.spaced {afterWord : Bool} {ts : List Token} {gap cs : List Char}
    (h : Layout afterWord ts cs) (hgap : IsGap gap) (hne : gap ≠ []) (b : Bool) :
    Layout b ts (gap ++ cs) := by
  have both {more : List Char} (hmore : IsGap more) : IsGap (gap ++ more) := by
    intro c hc
    rcases List.mem_append.mp hc with hc | hc
    · exact hgap c hc
    · exact hmore c hc
  cases h with
  | done hmore => exact .done (both hmore)
  | @token _ more cs t ts hmore hsep hrest =>
    have regroup : gap ++ (more ++ t.chars ++ cs) = gap ++ more ++ t.chars ++ cs := by simp
    rw [regroup]
    exact .token (both hmore) (fun _ _ hnil => hne (List.append_eq_nil_iff.mp hnil).1) hrest

theorem Layout.append {afterWord : Bool} {ts us : List Token} {cs ds : List Char}
    (h : Layout afterWord ts cs) (hus : ∀ b, Layout b us ds) :
    Layout afterWord (ts ++ us) (cs ++ ds) := by
  induction h with
  | @done b gap hgap =>
    by_cases hnil : gap = []
    · rw [hnil]
      exact hus b
    · exact (hus b).spaced hgap hnil b
  | @token b gap cs t ts hgap hsep hrest ih =>
    rw [List.append_assoc]
    exact .token hgap hsep ih

theorem exists_parse_of_layout {s : Statement} {ts : List Token} {text : List Char}
    (hs : s.Spelled ts) (h : Layout false ts text) :
    ∃ q, parse ("BEGIN " ++ .ofList text ++ " END") = .ok q ∧
      q.statements.map Statement.withoutSpans = [s.withoutSpans] := by
  have none : IsGap [] := by simp [IsGap]
  have space : IsGap [' '] := by simp [IsGap, isSpace]
  have hstop (b : Bool) : Layout b [.word "END"] " END".toList :=
    .token space (by simp) (.done none)
  have hlaid : Layout false (.word "BEGIN" :: (ts ++ [.word "END"]))
      ([] ++ "BEGIN".toList ++ ([' '] ++ (text ++ " END".toList))) :=
    .token none (by simp) ((h.append hstop).spaced space (by simp) true)
  have rendered : Program.RenderedAs ⟨[s], .zero⟩ ("BEGIN " ++ .ofList text ++ " END") :=
    ⟨[ts], .cons hs .nil, by simpa using hlaid⟩
  obtain ⟨q, hq, same⟩ := exists_parse_of_renderedAs rendered
  exact ⟨q, hq, congrArg Program.statements same⟩

theorem Covers.exists_marks {source : String} {before : List Char} {s : Span} {c next : Cursor}
    (h : Covers s c next) (hc : c.Stands source before) :
    ∃ before text, Passes c.skipSpaces text next ∧ Marks source before text s := by
  obtain ⟨rfl, text, -, hpass⟩ := h
  obtain ⟨gap, -, hskip⟩ := exists_gap_passes c
  exact ⟨_, text, hpass, (hc.passes hskip).marks hpass⟩

theorem Cursor.Stands.offset_lt {source : String} {before text : List Char} {c next : Cursor}
    (hc : c.Stands source before) (hp : Passes c text next) (hne : text ≠ []) :
    c.position.offset < next.position.offset :=
  (hc.marks hp).start_lt_stop hne

theorem exists_text_of_readFrom {s : Statement} {c next : Cursor}
    (h : Statement.ReadFrom s c next) : ∃ front middle back mid stop,
      (s.keyword.toList <+: front ∧ front ≠ [] ∧ Passes c.skipSpaces front mid) ∧
      (Chain (token parameter) mid s.params stop ∧ Passes mid middle stop) ∧
      ([';'] <:+ back ∧ Passes stop back next) ∧
      ∃ ts, s.Spelled ts ∧ Layout false ts (front ++ middle ++ back) := by
  obtain ⟨-, head, mid, stop, hhead, hchain, hlast, hs⟩ := h
  have hvalid := isValid_of_spelled hs
  -- the same text is laid out as a whole and read in three pieces
  have hreads := (hhead.skipSpaces.append hchain.reads.2).append (.cons hlast .nil)
  obtain ⟨opened, hword, hrest⟩ := (reads_cons_iff _ _ _ _).1 hhead
  obtain ⟨rest, hrest⟩ := hrest.exists_passes
  obtain ⟨middle, hmiddle⟩ := hchain.reads.2.exists_passes
  obtain ⟨gap, -, hskip⟩ := exists_gap_passes stop
  obtain ⟨text, hpass, hlaid⟩ := hreads.exists_layout hvalid false nofun
  have hfront := hword.passes.append hrest
  have hback := hskip.append hlast.passes
  have hfilled : s.keyword.toList ++ rest ≠ [] := by
    obtain ⟨a, chars, ha, -, -⟩ := (hvalid (.word s.keyword) (by simp)).exists_cons
    have hkeyword : s.keyword.toList = a :: chars := ha
    simp [hkeyword]
  rw [hpass.unique ((hfront.append hmiddle).append hback)] at hlaid
  exact ⟨_, middle, _, mid, stop, ⟨List.prefix_append .., hfilled, hfront⟩, ⟨hchain, hmiddle⟩,
    ⟨List.suffix_append .., hback⟩, _, hs, hlaid⟩

theorem cuts_of_chain {source : String} {before : List Char} {ps : List Parameter}
    {c next : Cursor} (h : Chain (token parameter) c ps next) (hc : c.Stands source before) :
    Follow source c.position.offset (ps.map Parameter.span) next.position.offset ∧
      ∀ p ∈ ps, SpellsParameter p (slice source p.span).toList ∧ IsPlaced source p.span := by
  have items : Chain (token parameter) c (ps.map id) next := by rwa [List.map_id]
  obtain ⟨hfollow, -, hall⟩ := items.follow covers_parameter hc
  refine ⟨hfollow, fun p hp => ?_⟩
  obtain ⟨c, next, before, hc, hrun⟩ := hall p hp
  obtain ⟨text, hspelled, hpass⟩ := parameter_spelled hrun
  obtain ⟨before, text', hpass', hmarks⟩ := (covers_parameter p c next hrun).exists_marks hc
  rw [hmarks.slice_eq, String.toList_ofList, hpass'.unique hpass]
  exact ⟨hspelled, hmarks.isPlaced⟩

theorem covers_statement (s : Statement) (c next : Cursor)
    (h : (token statement).run c = some (.ok s, next)) : Covers s.span c next := by
  have hread := readFrom_of_run h
  obtain ⟨front, middle, back, mid, stop, ⟨-, hne, hfront⟩, ⟨-, hmiddle⟩, ⟨-, hback⟩, -⟩ :=
    exists_text_of_readFrom hread
  exact ⟨hread.span, front ++ middle ++ back, by simp [hne], (hfront.append hmiddle).append hback⟩

theorem cuts_of_statement {source : String} {before : List Char} {s : Statement}
    {c next : Cursor} (h : (token statement).run c = some (.ok s, next))
    (hc : c.Stands source before) :
    CutsStatement source s ∧ ∀ t ∈ s.spans, IsPlaced source t := by
  obtain ⟨front, middle, back, mid, stop, ⟨hopen, hne, hfront⟩, ⟨hchain, hmiddle⟩,
    ⟨hclose, hback⟩, ts, hs, hlaid⟩ := exists_text_of_readFrom (readFrom_of_run h)
  obtain ⟨gap, -, hskip⟩ := exists_gap_passes c
  have hstart := hc.passes hskip
  have hmid := hstart.passes hfront
  have hstop := hmid.passes hmiddle
  have hspan : s.span = c.skipSpaces.position.spanTo next.position :=
    (covers_statement s c next h).span
  have hmarks := hstart.marks ((hfront.append hmiddle).append hback)
  rw [← hspan] at hmarks
  obtain ⟨hfollow, hparams⟩ := cuts_of_chain hchain hmid
  have hslice : (slice source s.span).toList = front ++ middle ++ back := by
    rw [hmarks.slice_eq, String.toList_ofList]
  refine ⟨⟨?_, ?_, ?_, hfollow.pairwise, ?_, fun p hp => (hparams p hp).1⟩, ?_⟩
  · rw [hslice, List.append_assoc]
    exact hopen.trans (List.prefix_append ..)
  · rw [hslice]
    exact hclose.trans (List.suffix_append ..)
  · rw [hmarks.slice_eq]
    exact exists_parse_of_layout hs hlaid
  · intro p hp
    have hin := List.mem_map_of_mem (f := Parameter.span) hp
    have hfirst := hstart.offset_lt hfront hne
    have hlast := hstop.offset_lt hback (by rintro rfl; simp at hclose)
    have hleft := hfollow.le_start _ hin
    have hright := hfollow.stop_le.2 _ hin
    rw [Span.Encloses, hspan]
    exact ⟨Nat.lt_of_lt_of_le hfirst hleft, Nat.lt_of_le_of_lt hright hlast⟩
  · rw [s.spans_eq, List.forall_mem_cons, List.forall_mem_map]
    exact ⟨hmarks.isPlaced, fun p hp => (hparams p hp).2⟩

/-! The whole program. -/

theorem covers_keyword {source keyword : String} {before : List Char} {c next : Cursor}
    (hk : IsWord keyword) (h : (Token.word keyword).ReadAt c next) (hc : c.Stands source before) :
    ∃ s : Span, s.stop = next.position.offset ∧ Covers s c next ∧ slice source s = keyword := by
  obtain ⟨gap, -, hskip⟩ := exists_gap_passes c
  refine ⟨c.skipSpaces.position.spanTo next.position, rfl, ⟨rfl, keyword.toList, ?_, h.passes⟩, ?_⟩
  · exact String.toList_eq_nil_iff.not.mpr hk.1
  · rw [((hc.passes hskip).marks h.passes).slice_eq]
    exact String.ofList_toList

theorem parts_of_parse {source : String} {p : Program} (h : parse source = .ok p) :
    Marks source [] source.toList p.span ∧ ∀ s ∈ p.statements, ∃ c next before,
      c.Stands source before ∧ (token statement).run c = some (.ok s, next) := by
  obtain ⟨first, last, stop, hbegin, hmany, hend, hrest, hspan⟩ := (parse_eq_ok_iff source p).1 h
  obtain ⟨_, -, hopening⟩ := exists_gap_passes (start source)
  have hfirst := (start_stands source).passes (hopening.append hbegin.passes)
  obtain ⟨-, ⟨_, hlast⟩, hall⟩ := (many_run_chain hmany).follow covers_statement hfirst
  obtain ⟨_, -, hclosing⟩ := exists_gap_passes last
  obtain ⟨_, -, hgap⟩ := exists_gap_passes stop
  have hdone := hlast.passes ((hclosing.append hend.passes).append hgap)
  have hwhole := hdone.text
  rw [hrest, List.append_nil] at hwhole
  refine ⟨?_, hall⟩
  rw [hspan]
  exact ⟨⟨[], by simp⟩, rfl, hwhole ▸ hdone.position⟩

theorem isPlaced_of_parse {source : String} {p : Program} (h : parse source = .ok p) :
    ∀ s ∈ p.spans, IsPlaced source s := by
  obtain ⟨hmarks, hall⟩ := parts_of_parse h
  refine List.forall_mem_cons.mpr ⟨hmarks.isPlaced, fun t ht => ?_⟩
  obtain ⟨s, hs, ht⟩ := List.mem_flatMap.mp ht
  obtain ⟨c, next, before, hc, hrun⟩ := hall s hs
  exact (cuts_of_statement hrun hc).2 t ht

/-- The spans of a text that is parsed: that of the program is the whole text; those of its
statements and of their parameters cut it into pieces with spaces between them, of which those of
the statements denote these again; and all of them have the lines and columns of their offsets. -/
theorem cutsProgram_of_parse {source : String} {p : Program} (h : parse source = .ok p) :
    CutsProgram source p := by
  obtain ⟨first, last, stop, hbegin, hmany, hend, hrest, -⟩ := (parse_eq_ok_iff source p).1 h
  obtain ⟨hmarks, hall⟩ := parts_of_parse h
  have hplaced := isPlaced_of_parse h
  have hstart := start_stands source
  obtain ⟨opening, -, hopens, hopening⟩ := covers_keyword (isWord_keyword (by decide)) hbegin hstart
  obtain ⟨hfollow, before, hfirst⟩ := hopens.follow hstart
  obtain ⟨hfollow', ⟨before', hlast⟩, -⟩ := (many_run_chain hmany).follow covers_statement hfirst
  obtain ⟨closing, hclosed, hcloses, hclosing⟩ :=
    covers_keyword (isWord_keyword (by decide)) hend hlast
  obtain ⟨hfollow'', before'', hstop⟩ := hcloses.follow hlast
  obtain ⟨gap, hgap, hskip⟩ := exists_gap_passes stop
  have hdone := hstop.passes hskip
  have hwhole : source.toList = before'' ++ gap := by rw [hdone.text, hrest, List.append_nil]
  have hstatements : ∀ s ∈ p.statements, CutsStatement source s := by
    intro s hs
    obtain ⟨c, next, before, hc, hrun⟩ := hall s hs
    exact (cuts_of_statement hrun hc).1
  have hends : ∀ a ∈ p.spans.flatMap Span.ends, positionAt source a.offset = a := by
    intro a ha
    obtain ⟨s, hs, ha⟩ := List.mem_flatMap.mp ha
    rcases List.mem_pair.mp ha with rfl | rfl
    · exact (hplaced s hs).first
    · exact (hplaced s hs).last
  refine ⟨⟨hmarks.start_eq, ?_⟩, ⟨opening, closing, ?_, hopening, hclosing, ?_⟩, hfollow'.pairwise,
    hstatements, hplaced,
    fun a ha b hb => before_of_offset_lt (hends a ha) (hends b hb)⟩
  · rw [hmarks.stop_eq, List.nil_append, String.utf8Len_toList]
  · rw [hclosed]
    exact (hfollow.append hfollow').append hfollow''
  · have reached : closing.stop = String.utf8Len before'' :=
      hclosed.trans (congrArg Position.offset hstop.position)
    rw [reached, ← String.utf8Len_toList, hwhole, textBetween_eq (hwhole.trans (List.append_nil _).symm)]
    exact hgap

def accented : String :=
  "BEGIN INST a->:group-->mode=\"é\nß\" --> path = \"p\";\n EXEC_INST a;END\n"

def accentedProgram : Program where
  statements :=
    [.instruction ⟨"a", .group,
      [⟨"mode", "é\nß", ⟨20, 35, 0, 20, 1, 2⟩⟩, ⟨"path", "p", ⟨36, 50, 1, 3, 1, 17⟩⟩],
      ⟨6, 51, 0, 6, 1, 18⟩⟩,
    .execute "a" none ⟨53, 65, 2, 1, 2, 13⟩]
  span := ⟨0, 69, 0, 0, 3, 0⟩

theorem cutsProgram_accented :
    parse accented = .ok accentedProgram ∧ CutsProgram accented accentedProgram := by
  have parsed : parse accented = .ok accentedProgram := by decide +kernel
  exact ⟨parsed, cutsProgram_of_parse parsed⟩

end Source
end SimpleFiles
