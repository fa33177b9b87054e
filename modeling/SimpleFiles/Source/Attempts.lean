/-! What was tried where the text stopped making sense. Attempts are kept for
the farthest offset only, in the order in which they failed. -/
namespace SimpleFiles.Source

inductive Symbol where
  | endOfInput
  | program
  | instruction
  | condition
  | variable
  | executeInstruction
  | executeUnderCondition
  | parameter
  | action
  | name
  | parameterKey
  | text
  | keyword (word : String)
deriving DecidableEq, Repr, Inhabited

namespace Symbol

def all : List Symbol := [.endOfInput, .program, .instruction, .condition, .variable,
  .executeInstruction, .executeUnderCondition, .parameter, .action, .name, .parameterKey, .text,
  .keyword "BEGIN", .keyword "END", .keyword "INST", .keyword "COND", .keyword "VAR",
  .keyword "EXEC_INST", .keyword "EXEC_COND_MAP", .keyword "WITH_COND"]

def title : Symbol → String
  | .endOfInput => "EOI"
  | .program => "program"
  | .instruction => "instruction"
  | .condition => "condition"
  | .variable => "variable"
  | .executeInstruction => "exec_inst"
  | .executeUnderCondition => "exec_cond_map"
  | .parameter => "parameter"
  | .action => "action"
  | .name => "name"
  | .parameterKey => "param_key"
  | .text => "string"
  | .keyword word => "kw_" ++ word.map Char.toLower

end Symbol

structure Attempts where
  offset : Nat := 0
  symbols : List Symbol := []
deriving DecidableEq, Repr, Inhabited

namespace Attempts

def countAt (a : Attempts) (offset : Nat) : Nat :=
  if offset = a.offset then a.symbols.length else 0

/-- A symbol failed at an offset where `before` attempts had been made when it
was tried. A single attempt made within it explains the failure better; several
are summed up by the symbol itself. -/
def fail (a : Attempts) (symbol : Symbol) (offset before : Nat) : Attempts :=
  if a.countAt offset = before + 1 then a
  else if offset = a.offset then ⟨offset, a.symbols.take before ++ [symbol]⟩
  else if offset > a.offset then ⟨offset, [symbol]⟩
  else a

def expected (a : Attempts) : List Symbol := Symbol.all.filter (· ∈ a.symbols)

end Attempts
end SimpleFiles.Source
