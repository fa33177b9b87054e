import Mathlib.Data.List.Forall2
import SimpleFiles.Source

/-! Renderings of programs. A program is spelled in tokens, and tokens are laid
out with spaces between them. Nothing here refers to how a text is read. -/
namespace SimpleFiles

def Parameter.withoutSpan (p : Parameter) : Parameter := { p with span := .zero }

def Statement.withoutSpans : Statement → Statement
  | .instruction d => .instruction { d with
      params := d.params.map Parameter.withoutSpan, span := .zero }
  | .condition d => .condition { d with
      params := d.params.map Parameter.withoutSpan, span := .zero }
  | .assign key value _ => .assign key value .zero
  | .execute name under _ => .execute name under .zero

/-- Two programs are equal up to spans when they agree without them. -/
def Program.withoutSpans (p : Program) : Program :=
  ⟨p.statements.map Statement.withoutSpans, .zero⟩

def Statement.keyword : Statement → String
  | .instruction _ => "INST"
  | .condition _ => "COND"
  | .assign .. => "VAR"
  | .execute _ none _ => "EXEC_INST"
  | .execute _ (some _) _ => "EXEC_COND_MAP"

def Statement.params : Statement → List Parameter
  | .instruction d => d.params
  | .condition d => d.params
  | _ => []

namespace Source

open Grammar

/-- The tokens of the language. Keywords, names and keys are words; marks stand
for themselves. -/
inductive Token where
  | word (s : String)
  | mark (s : String)
  | action (s : String)
  | text (s : String)
deriving DecidableEq, Repr, Inhabited

namespace Token

def chars : Token → List Char
  | .word s => s.toList
  | .mark s => s.toList
  | .action s => ':' :: s.toList
  | .text s => '"' :: (s.toList ++ ['"'])

def isWord : Token → Bool
  | .word _ => true
  | _ => false

end Token

def IsWord (word : String) : Prop := word ≠ "" ∧ ∀ c ∈ word.toList, isWordChar c

def IsKey (key : String) : Prop := IsWord key ∧ key.toList.head?.any isKeyStart

/-- A text that can stand between quotes. -/
def IsQuotable (value : String) : Prop := '"' ∉ value.toList

def IsGap (gap : List Char) : Prop := ∀ c ∈ gap, isSpace c

/-- Tokens laid out as text, after a word or not. A gap may stand before, between
and after tokens, and one that is not empty stands between two words. -/
inductive Layout : Bool → List Token → List Char → Prop
  | done {afterWord : Bool} {gap : List Char} (hgap : IsGap gap) : Layout afterWord [] gap
  | token {afterWord : Bool} {gap cs : List Char} {t : Token} {ts : List Token}
      (hgap : IsGap gap) (hsep : afterWord → t.isWord → gap ≠ [])
      (hrest : Layout t.isWord ts cs) : Layout afterWord (t :: ts) (gap ++ t.chars ++ cs)

end Source

def Parameter.tokens (p : Parameter) : List Source.Token :=
  [.mark "-->", .word p.key, .mark "=", .text p.value]

def Parameter.IsWritable (p : Parameter) : Prop :=
  Source.IsKey p.key ∧ Source.IsQuotable p.value

open Source in
inductive Statement.Spelled : Statement → List Token → Prop
  | instruction {name word : String} {params : List Parameter} {span : Span}
      (hname : IsWord name) (hword : IsWord word) (hparams : ∀ p ∈ params, p.IsWritable) :
      Spelled (.instruction ⟨name, .ofKeyword (":" ++ word), params, span⟩)
        ([.word "INST", .word name, .mark "->", .action word]
          ++ params.flatMap Parameter.tokens ++ [.mark ";"])
  | condition {name : String} {params : List Parameter} {span : Span}
      (hname : IsWord name) (hparams : ∀ p ∈ params, p.IsWritable) :
      Spelled (.condition ⟨name, params, span⟩)
        ([.word "COND", .word name, .mark "->", .action "condition"]
          ++ params.flatMap Parameter.tokens ++ [.mark ";"])
  | assign {key value : String} {span : Span} (hkey : IsKey key) (hvalue : IsQuotable value) :
      Spelled (.assign key value span)
        [.word "VAR", .word key, .mark "=", .text value, .mark ";"]
  | execute {name : String} {span : Span} (hname : IsWord name) :
      Spelled (.execute name none span) [.word "EXEC_INST", .word name, .mark ";"]
  | executeUnder {name under : String} {span : Span} (hname : IsWord name)
      (hunder : IsWord under) :
      Spelled (.execute name (some under) span)
        [.word "EXEC_COND_MAP", .word name, .word "WITH_COND", .word under, .mark ";"]

/-- A text lays out the tokens that spell the statements of a program in order. -/
def Program.RenderedAs (p : Program) (source : String) : Prop :=
  ∃ pieces, List.Forall₂ Statement.Spelled p.statements pieces ∧
    Source.Layout false (.word "BEGIN" :: pieces.flatten ++ [.word "END"]) source.toList

end SimpleFiles
