import SimpleFiles.Source.Attempts
import SimpleFiles.Source.Cursor

/-! A parser reads a value at a cursor or fails. Apart from that it notes what
it attempted, so the value read never depends on the notes. -/
namespace SimpleFiles.Source

structure Parser (α : Type) where
  run : Cursor → Option (α × Cursor)
  note : Cursor → Attempts → Attempts

namespace Parser

/-- A parser that attempts nothing of note. -/
def silent (run : Cursor → Option (α × Cursor)) : Parser α := ⟨run, fun _ attempts => attempts⟩

instance : Monad Parser where
  pure a := silent fun c => some (a, c)
  bind p f :=
    { run := fun c => (p.run c).bind fun (a, c) => (f a).run c
      note := fun c attempts =>
        match p.run c with
        | none => p.note c attempts
        | some (a, next) => (f a).note next (p.note c attempts) }

def orElse (p q : Parser α) : Parser α where
  run c := (p.run c).or (q.run c)
  note c attempts :=
    let attempts := p.note c attempts
    if (p.run c).isSome then attempts else q.note c attempts

def manyRun (p : Cursor → Option (α × Cursor)) (c : Cursor) : List α × Cursor :=
  match p c with
  | none => ([], c)
  | some (a, next) =>
    if next.rest.length < c.rest.length then
      let (as, last) := manyRun p next
      (a :: as, last)
    else ([], c)
termination_by c.rest.length

def manyNote (p : Parser α) (c : Cursor) (attempts : Attempts) : Attempts :=
  match p.run c with
  | none => p.note c attempts
  | some (_, next) =>
    if next.rest.length < c.rest.length then manyNote p next (p.note c attempts)
    else p.note c attempts
termination_by c.rest.length

/-- As often as the parser reads something. -/
def many (p : Parser α) : Parser (List α) where
  run c := some (manyRun p.run c)
  note := manyNote p

def named (symbol : Symbol) (p : Parser α) : Parser α where
  run := p.run
  note c attempts :=
    let offset := c.position.offset
    let after := p.note c attempts
    if (p.run c).isSome then after else after.fail symbol offset (attempts.countAt offset)

def spanned (p : Parser α) : Parser (α × Span) where
  run c := (p.run c).map fun (a, next) => ((a, c.position.spanTo next.position), next)
  note := p.note

def literal (word : String) : Parser Unit :=
  silent fun c =>
    if word.toList.isPrefixOf c.rest then some ((), c.advance word.toList.length) else none

def notNext (test : Char → Bool) : Parser Unit :=
  silent fun c => if c.rest.head?.any test then none else some ((), c)

def takeWhile (test : Char → Bool) : Parser String :=
  silent fun c => some (.ofList (c.rest.takeWhile test), c.skipWhile test)

def takeSome (test : Char → Bool) : Parser String :=
  silent fun c =>
    if c.rest.head?.any test then some (.ofList (c.rest.takeWhile test), c.skipWhile test)
    else none

def atEnd : Parser Unit :=
  silent fun c => if c.atEnd then some ((), c) else none

@[simp] theorem run_pure (a : α) (c : Cursor) : (pure a : Parser α).run c = some (a, c) := rfl

@[simp] theorem run_bind (p : Parser α) (f : α → Parser β) (c : Cursor) :
    (p >>= f).run c = (p.run c).bind fun (a, next) => (f a).run next := rfl

@[simp] theorem run_orElse (p q : Parser α) (c : Cursor) :
    (p.orElse q).run c = (p.run c).or (q.run c) := rfl

@[simp] theorem run_named (symbol : Symbol) (p : Parser α) : (named symbol p).run = p.run := rfl

end Parser
end SimpleFiles.Source
