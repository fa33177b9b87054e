import SimpleFiles.Proofs.Check.Findings
import SimpleFiles.Proofs.Program.Json
import SimpleFiles.Proofs.Source.Spans
import SimpleFiles.Proofs.Text.Integer

/-! How findings are displayed. The span of a finding is one of the program's, so the line and the
column it shows are those of a decoded span, each one more than a word of 64 bits. A number after
the last word cannot be shown: there is no display, or one with zero in its place. No text that is
parsed is so long. -/
namespace SimpleFiles.Check

/-! The spans of findings. -/

theorem span_of_mem_keyIssues {params : List Parameter} {span : Span} {issue : Issue}
    (h : (span, issue) ∈ keyIssues params) : span ∈ params.map Parameter.span := by
  obtain ⟨p, hp, found⟩ := List.mem_filterMap.mp h
  obtain ⟨_, -, same⟩ := Option.map_eq_some_iff.mp found
  cases same
  exact List.mem_map_of_mem hp

theorem span_of_mem_referenceIssues {before : List Statement} {name : String}
    {condition : Option String} {place span : Span} {issue : Issue}
    (h : (span, issue) ∈ referenceIssues before (.execute name condition place)) :
    span = place := by
  cases condition with
  | none =>
    simp only [referenceIssues] at h
    split at h
    · cases h
    · exact (Prod.mk.inj (List.mem_singleton.mp h)).1
  | some under =>
    rcases List.mem_append.mp h with h | h
    · split at h
      · cases h
      · exact (Prod.mk.inj (List.mem_singleton.mp h)).1
    · split at h
      · cases h
      · exact (Prod.mk.inj (List.mem_singleton.mp h)).1

theorem Rule.span_of_mem_issues {rule : Rule} {program : Program} {before : List Statement}
    {s : Statement} {span : Span} {issue : Issue}
    (h : (span, issue) ∈ rule.issues program before s) : span ∈ s.spans := by
  have own {issues : List Issue} {whole : Span}
      (h : (span, issue) ∈ issues.map (whole, ·)) : span = whole := by
    obtain ⟨_, -, same⟩ := List.mem_map.mp h
    exact (Prod.mk.inj same).1.symm
  cases s with
  | instruction declared =>
    cases rule with
    | duplicateDeclaration => exact List.mem_cons.mpr (.inl (own h))
    | undefinedReference => cases h
    | instructionParameters => exact List.mem_cons.mpr (.inl (own h))
    | parameterKeys => exact List.mem_cons_of_mem _ (span_of_mem_keyIssues h)
    | unusedInstruction =>
      simp only [Rule.issues, usageIssues] at h
      split at h
      · cases h
      · exact List.mem_cons.mpr (.inl (Prod.mk.inj (List.mem_singleton.mp h)).1)
  | condition declared =>
    cases rule with
    | duplicateDeclaration => exact List.mem_cons.mpr (.inl (own h))
    | undefinedReference => cases h
    | instructionParameters => cases h
    | parameterKeys => exact List.mem_cons_of_mem _ (span_of_mem_keyIssues h)
    | unusedInstruction => cases h
  | assign key value place => cases rule <;> cases h
  | execute name condition place =>
    cases rule with
    | undefinedReference => exact List.mem_singleton.mpr (span_of_mem_referenceIssues h)
    | _ => cases h

theorem span_of_mem_findings {c : Checker} {p : Program} {f : Finding} (h : f ∈ c.findings p) :
    f.span ∈ p.spans := by
  obtain ⟨early, s, rest, split, -, rule, -, found⟩ := (c.mem_findings_iff p f).mp h
  refine List.mem_cons_of_mem _ (List.mem_flatMap.mpr ⟨s, ?_, rule.span_of_mem_issues found⟩)
  rw [split]
  exact List.mem_append_right early (.head rest)

/-! The numbers in a display. -/

theorem digits_append_inj {m n : Nat} {stop : Char} {xs ys : List Char}
    (noDigit : stop.isDigit = false)
    (h : (toString m).toList ++ stop :: xs = (toString n).toList ++ stop :: ys) :
    m = n ∧ xs = ys := by
  have run (k : Nat) (zs : List Char) :
      ((toString k).toList ++ stop :: zs).takeWhile Char.isDigit = (toString k).toList := by
    rw [Json.toList_toString, List.takeWhile_append_of_pos (Json.isDigit_of_mem_toDigits k),
      List.takeWhile_cons_of_neg (by simp [noDigit]), List.append_nil]
  have same : (toString m).toList = (toString n).toList := by rw [← run m xs, h, run n ys]
  rw [same] at h
  exact ⟨Int.ofNat.inj (Text.eq_of_toString_eq (String.toList_inj.mp same)),
    (List.cons.inj (List.append_cancel_left h)).2⟩

namespace Finding

variable {f : Finding}

theorem displayAt_inj {line column line' column' : Nat} :
    f.displayAt line column = f.displayAt line' column' ↔ line = line' ∧ column = column' := by
  constructor
  · intro h
    have chars := congrArg String.toList h
    simp only [displayAt, String.toList_append, List.append_assoc] at chars
    obtain ⟨sameLine, rest⟩ := digits_append_inj (by decide : ','.isDigit = false)
      (List.append_cancel_left (List.append_cancel_left chars))
    have columns : " col ".toList ++ _ = " col ".toList ++ _ := rest
    obtain ⟨sameColumn, -⟩ := digits_append_inj (by decide : ':'.isDigit = false)
      (List.append_cancel_left columns)
    exact ⟨sameLine, sameColumn⟩
  · rintro ⟨rfl, rfl⟩
    rfl

theorem display?_eq_some (o : Word.Overflow) (line : f.span.startLine + 1 < Word.count64)
    (column : f.span.startColumn + 1 < Word.count64) : f.display? o = some f.display := by
  rw [display?, Word.succ64?_of_lt o line, Word.succ64?_of_lt o column]
  rfl

section
variable (line : f.span.startLine < Word.count64) (column : f.span.startColumn < Word.count64)
include line column

theorem display?_stops_eq_none_iff :
    f.display? .stops = none ↔ f.span.startLine + 1 = 2 ^ 64 ∨ f.span.startColumn + 1 = 2 ^ 64 := by
  have whole : Word.count64 = 2 ^ 64 := rfl
  by_cases lineFits : f.span.startLine + 1 < Word.count64
  · by_cases columnFits : f.span.startColumn + 1 < Word.count64
    · rw [display?_eq_some .stops lineFits columnFits]
      simp only [reduceCtorEq, false_iff]
      omega
    · simp only [display?, Word.succ64?, if_pos lineFits, if_neg columnFits, Option.bind_eq_bind,
        Option.bind_some, Option.bind_none, true_iff]
      omega
  · simp only [display?, Word.succ64?, if_neg lineFits, Option.bind_eq_bind, Option.bind_none,
      true_iff]
    omega

theorem display?_wraps : f.display? .wraps = some (f.displayAt
    (if f.span.startLine + 1 = 2 ^ 64 then 0 else f.span.startLine + 1)
    (if f.span.startColumn + 1 = 2 ^ 64 then 0 else f.span.startColumn + 1)) := by
  have wrapped {n : Nat} (h : n < Word.count64) :
      Word.succ64? .wraps n = some (if n + 1 = 2 ^ 64 then 0 else n + 1) := by
    have whole : Word.count64 = 2 ^ 64 := rfl
    by_cases fits : n + 1 < Word.count64
    · rw [Word.succ64?_of_lt .wraps fits, if_neg (by omega)]
    · have last : n + 1 = Word.count64 := by omega
      rw [Word.succ64?, if_neg fits, last, if_pos whole, Nat.mod_self]
  rw [display?, wrapped line, wrapped column]
  rfl

theorem display?_eq_iff (o : Word.Overflow) :
    f.display? o = some f.display ↔
      f.span.startLine + 1 ≠ 2 ^ 64 ∧ f.span.startColumn + 1 ≠ 2 ^ 64 := by
  constructor
  · intro shown
    cases o with
    | stops =>
      have none : f.display? .stops ≠ none := by simp [shown]
      rwa [Ne, display?_stops_eq_none_iff line column, not_or] at none
    | wraps =>
      rw [display?_wraps line column, Option.some.injEq, display, displayAt_inj] at shown
      exact ⟨fun last => by simp [last] at shown, fun last => by simp [last] at shown⟩
  · rintro ⟨lineFits, columnFits⟩
    have whole : Word.count64 = 2 ^ 64 := rfl
    exact display?_eq_some o (by omega) (by omega)

end

theorem display?_of_parse {source : String} {p : Program} {c : Checker}
    (parsed : Source.parse source = .ok p) (short : source.utf8ByteSize + 1 < Word.count64)
    (found : f ∈ c.findings p) (o : Word.Overflow) : f.display? o = some f.display := by
  obtain ⟨line, column⟩ := (Source.isPlaced_of_parse parsed _ (span_of_mem_findings found)).start_le
  exact display?_eq_some o (by omega) (by omega)

end Finding

/-- The line and the column of a finding in a program that was decoded, counted from one, are
displayed exactly as integers if both of them fit words of 64 bits, which is so unless one of them
is the number after the last word. There is no display then where a program stops at sums that fit
no word; where it goes on, zero is displayed for that number. -/
theorem display_counts_from_one {text : String} {p : Program}
    (decoded : Program.decode? text = some p) (isStrict : Bool) {f : Finding}
    (found : f ∈ (Checker.ofStrict isStrict).findings p) :
    let line := f.span.startLine + 1
    let column := f.span.startColumn + 1
    line ≤ 2 ^ 64 ∧ column ≤ 2 ^ 64 ∧
    (∀ o, f.display? o = some (f.displayAt line column) ↔ line ≠ 2 ^ 64 ∧ column ≠ 2 ^ 64) ∧
    (f.display? .stops = none ↔ line = 2 ^ 64 ∨ column = 2 ^ 64) ∧
    f.display? .wraps = some (f.displayAt (if line = 2 ^ 64 then 0 else line)
      (if column = 2 ^ 64 then 0 else column)) := by
  obtain ⟨value, -, read⟩ := Option.bind_eq_some_iff.mp decoded
  have fits : f.span.FitsWords := p.fitsWords_of_ofJson? value read _ (span_of_mem_findings found)
  have line : f.span.startLine < Word.count64 := fits _ (by simp)
  have column : f.span.startColumn < Word.count64 := fits _ (by simp)
  exact ⟨line, column, Finding.display?_eq_iff line column,
    Finding.display?_stops_eq_none_iff line column, Finding.display?_wraps line column⟩

def lastLine : Program := ⟨[.execute "a" none ⟨0, 0, 2 ^ 64 - 1, 0, 0, 0⟩], .zero⟩

def lastLineFinding : Finding :=
  ⟨0, ⟨0, 0, 2 ^ 64 - 1, 0, 0, 0⟩, .undefinedInstruction "a"⟩

theorem display_counts_from_one_lastLine :
    Program.decode? lastLine.encode = some lastLine ∧
      lastLineFinding ∈ (Checker.ofStrict false).findings lastLine ∧
      lastLineFinding.display? .stops = none ∧
      lastLineFinding.display? .wraps = some ("error at line 0, col 1: " ++
        "Instruction not found: a [undefined-reference]") ∧
      ∀ o, lastLineFinding.display? o ≠ some (lastLineFinding.displayAt (2 ^ 64) 1) := by
  have decoded : Program.decode? lastLine.encode = some lastLine := by
    rw [Program.decode?, Program.encode, Json.ofText?_compact _ lastLine.legal_toJson]
    exact Program.ofJson?_toJson lastLine (by decide)
  have found : lastLineFinding ∈ (Checker.ofStrict false).findings lastLine := by decide +kernel
  obtain ⟨-, -, exact, stops, wraps⟩ := display_counts_from_one decoded false found
  refine ⟨decoded, found, stops.mpr (.inl rfl), wraps.trans (by decide +kernel), fun o same => ?_⟩
  exact ((exact o).mp same).1 rfl

end SimpleFiles.Check
