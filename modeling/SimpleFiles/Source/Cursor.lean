import SimpleFiles.Program.Span

/-! A cursor stands at a place in source text: what is left of the text, and
the byte offset, line and column reached, counted from zero. -/
namespace SimpleFiles.Source

structure Position where
  offset : Nat := 0
  line : Nat := 0
  column : Nat := 0
deriving DecidableEq, Repr, Inhabited

/-- Only a line feed ends a line. -/
def Position.next (p : Position) (c : Char) : Position :=
  if c = '\n' then ⟨p.offset + c.utf8Size, p.line + 1, 0⟩
  else ⟨p.offset + c.utf8Size, p.line, p.column + 1⟩

def Position.after (p : Position) (cs : List Char) : Position := cs.foldl Position.next p

def Position.spanTo (first last : Position) : Span :=
  ⟨first.offset, last.offset, first.line, first.column, last.line, last.column⟩

structure Cursor where
  rest : List Char
  position : Position := {}
deriving DecidableEq, Repr, Inhabited

namespace Cursor

def advance (c : Cursor) (n : Nat) : Cursor :=
  ⟨c.rest.drop n, c.position.after (c.rest.take n)⟩

def skipWhile (test : Char → Bool) (c : Cursor) : Cursor :=
  ⟨c.rest.dropWhile test, c.position.after (c.rest.takeWhile test)⟩

def atEnd (c : Cursor) : Bool := c.rest.isEmpty

end Cursor

theorem Position.after_append (p : Position) (as bs : List Char) :
    p.after (as ++ bs) = (p.after as).after bs := List.foldl_append

theorem Cursor.skipWhile_length (test : Char → Bool) (c : Cursor) :
    (c.skipWhile test).rest.length ≤ c.rest.length :=
  (List.dropWhile_suffix test).length_le

end SimpleFiles.Source
