import SimpleFiles.DateTime

/-! Why the options of a filter make no filter. -/
namespace SimpleFiles

inductive PatternFault where
  | groupUnclosed
  | groupUnopened
  | classUnclosed
  | repetitionMissing
  | countInvalid
  | countUnclosed
  | countNotDecimal
  | decimalInvalid
  | escapeUnfinished
  | escapeUnrecognized
  | backreference
  | lookAround
  | nameDuplicate
  | nameEmpty
  | nameInvalid
  | nameUnclosed
  | flagUnrecognized
  | flagMissing
  | flagDuplicate
  | negationRepeated
  | negationDangling
  | classEscape
  | classRange
  | rangeBoundary
  | propertyInvalid
  | propertyUnknown
  | propertyValueUnknown
  | hexEmpty
  | hexDigit
  | hexScalar
  | boundaryUnclosed
  | boundaryUnrecognized
  | boundaryUnfinished
  | scalarNotAllowed
  | bytesNotText
  | nestingTooDeep
deriving DecidableEq, Repr, Inhabited

def PatternFault.message : PatternFault → String
  | .groupUnclosed => "unclosed group"
  | .groupUnopened => "unopened group"
  | .classUnclosed => "unclosed character class"
  | .repetitionMissing => "repetition operator missing expression"
  | .countInvalid => "invalid repetition count range, the start must be <= the end"
  | .countUnclosed => "unclosed counted repetition"
  | .countNotDecimal => "repetition quantifier expects a valid decimal"
  | .decimalInvalid => "decimal literal invalid"
  | .escapeUnfinished => "incomplete escape sequence, reached end of pattern prematurely"
  | .escapeUnrecognized => "unrecognized escape sequence"
  | .backreference => "backreferences are not supported"
  | .lookAround => "look-around, including look-ahead and look-behind, is not supported"
  | .nameDuplicate => "duplicate capture group name"
  | .nameEmpty => "empty capture group name"
  | .nameInvalid => "invalid capture group character"
  | .nameUnclosed => "unclosed capture group name"
  | .flagUnrecognized => "unrecognized flag"
  | .flagMissing => "expected flag but got end of regex"
  | .flagDuplicate => "duplicate flag"
  | .negationRepeated => "flag negation operator repeated"
  | .negationDangling => "dangling flag negation operator"
  | .classEscape => "invalid escape sequence found in character class"
  | .classRange => "invalid character class range, the start must be <= the end"
  | .rangeBoundary => "invalid range boundary, must be a literal"
  | .propertyInvalid => "invalid Unicode character class"
  | .propertyUnknown => "Unicode property not found"
  | .propertyValueUnknown => "Unicode property value not found"
  | .hexEmpty => "hexadecimal literal empty"
  | .hexDigit => "invalid hexadecimal digit"
  | .hexScalar => "hexadecimal literal is not a Unicode scalar value"
  | .boundaryUnclosed =>
    "special word boundary assertion is either unclosed or contains an invalid character"
  | .boundaryUnrecognized => "unrecognized special word boundary assertion, valid choices are: "
      ++ "start, end, start-half or end-half"
  | .boundaryUnfinished => "found either the beginning of a special word boundary or a bounded "
      ++ "repetition on a \\b with an opening brace, but no closing brace"
  | .scalarNotAllowed => "Unicode not allowed here"
  | .bytesNotText => "pattern can match invalid UTF-8"
  | .nestingTooDeep => "exceed the maximum number of nested parentheses/brackets (250)"

inductive FilterError where
  | dateArity
  | unknownRange (comparator : String)
  | invalidDate (word : String) (fault : DateTime.Fault)
  | missingUpperDate
  | missingComparator
  | missingSize
  | invalidSize
  | unknownComparator (comparator : String)
  | invalidPattern (pattern : String) (fault : PatternFault)
deriving DecidableEq, Repr, Inhabited

def FilterError.message : FilterError → String
  | .dateArity => "Cannot properly parse parameter arguments for modified_date"
  | .unknownRange comparator => "Unknown range comparator: " ++ comparator
  | .invalidDate word fault =>
    "Error encountered when trying to parse the given date: " ++ word ++ ": " ++ fault.message
  | .missingUpperDate => "Range comparator 'between' requires two dates"
  | .missingComparator => "Size comparison missing comparator parameter."
  | .missingSize => "Size comparison missing size parameter."
  | .invalidSize => "Specified size must be parsable integer."
  | .unknownComparator comparator => "Unknown size comparator: " ++ comparator
  | .invalidPattern pattern fault => "Invalid regex '" ++ pattern ++ "': error: " ++ fault.message

end SimpleFiles
