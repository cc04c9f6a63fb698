import Entail.Token
import Entail.Text.Quoted

/-! Everything that can stop a reading, an evaluation or a session, with its wording and the kind
of failure a caller can tell apart. -/

namespace Entail

open Text

/-- The kinds of failure. A run reports `badValue` faults itself and stops; any other kind ends
it at once. -/
inductive FaultKind
  | badValue
  | noAttribute
  | unboundName
  | endOfInput
  | fileNotFound
  | isDirectory
  | notDirectory
  | nameTooLong
deriving DecidableEq, Repr

/-- How a failure of each kind is announced when nothing handles it. -/
def FaultKind.label : FaultKind → String
  | badValue => "ValueError"
  | noAttribute => "AttributeError"
  | unboundName => "NameError"
  | endOfInput => "EOFError"
  | fileNotFound => "FileNotFoundError"
  | isDirectory => "IsADirectoryError"
  | notDirectory => "NotADirectoryError"
  | nameTooLong => "OSError"

/-- Why a step failed. Where the message shows a piece of the state, the fault carries that
piece as it was shown at the moment of failure. -/
inductive Fault
  /-- A character that no token begins with. -/
  | invalidToken (c : Char)
  /-- A closing parenthesis without its opening one, or an opening one never closed. -/
  | mismatchedParens
  /-- A connective met an empty operand stack. -/
  | noOperand (c : Connective)
  /-- A binary connective met a single operand, shown as `first`. -/
  | oneOperand (c : Connective) (first : String)
  /-- An expression left no value, or more than one. -/
  | notSingleValue
  /-- A conclusion of a shape that no truth value can be read into, shown as `shown`. -/
  | invalidConclusion (shown : String)
  /-- A conclusion whose connective place holds a parenthesis. -/
  | parenInConclusion
  /-- A conclusion of three tokens reached in an interactive session, which cannot read one. -/
  | conclusionInSession
  /-- An expression evaluated with no environment to evaluate it in. -/
  | noEnvironment
  /-- A rule line with nothing before its arrow. -/
  | emptyPremise (rule : String)
  /-- A rule line with nothing after its arrow, or no arrow at all. -/
  | emptyConclusion (rule : String)
  /-- A rule book of fewer than two lines. -/
  | insufficientInput
  /-- A last line that is not `?` followed by capital letters. -/
  | invalidQuery (line : String)
  /-- A second-to-last line that is not `=` followed by capital letters. -/
  | invalidInitialFacts (line : String)
  /-- A session read past the end of its input. -/
  | endOfInput
  /-- A file name that names nothing. -/
  | missingFile (path : String)
  /-- A file name that names a directory. -/
  | isDirectory (path : String)
  /-- A file name that goes through a file as if it were a directory. -/
  | notDirectory (path : String)
  /-- A file name, or a part of one, longer than names may be. -/
  | nameTooLong (path : String)
  /-- A file name holding the character NUL, which no file name holds. -/
  | nulInFileName
  /-- A file whose bytes are not UTF-8: the first byte that breaks the reading, its position,
  and what is wrong with it. -/
  | undecodable (byte position : Nat) (reason : String)
deriving DecidableEq, Repr

namespace Fault

/-- The kind of failure a fault is. -/
def kind : Fault → FaultKind
  | parenInConclusion => .noAttribute
  | conclusionInSession | noEnvironment => .unboundName
  | endOfInput => .endOfInput
  | missingFile _ => .fileNotFound
  | isDirectory _ => .isDirectory
  | notDirectory _ => .notDirectory
  | nameTooLong _ => .nameTooLong
  | _ => .badValue

/-- The message of a fault. -/
def message : Fault → String
  | invalidToken c => "Invalid token: " ++ c.toString
  | mismatchedParens => "Mismatched parentheses"
  | noOperand c =>
    "Not enough operands to perform calculation | Operator " ++ c.text ++
      " (<class '__main__.Operator'>)"
  | oneOperand c first =>
    "Not enough operands to perform calculation | Operator " ++ c.text ++ ", op1 " ++ first
  | notSingleValue => "Expression doesn't evaluate to a single value"
  | invalidConclusion shown => "('Invalid RHS:', " ++ shown ++ ")"
  | parenInConclusion => "'str' object has no attribute 'name'"
  | conclusionInSession => "name 'f' is not defined"
  | noEnvironment => "name 'env' is not defined"
  | emptyPremise rule => rule ++ ": Empty LHS"
  | emptyConclusion rule => rule ++ ": Empty RHS"
  | insufficientInput => "Input is insufficient for proper working"
  | invalidQuery line => "('Invalid query:', " ++ quote line ++ ")"
  | invalidInitialFacts line => "('Invalid initial facts:', " ++ quote line ++ ")"
  | endOfInput => "EOF when reading a line"
  | missingFile path => "[Errno 2] No such file or directory: " ++ quote path
  | isDirectory path => "[Errno 21] Is a directory: " ++ quote path
  | notDirectory path => "[Errno 20] Not a directory: " ++ quote path
  | nameTooLong path => "[Errno 36] File name too long: " ++ quote path
  | nulInFileName => "No such file. Nice try"
  | undecodable byte position reason =>
    "'utf-8' codec can't decode byte 0x" ++ String.ofList (hexDigits 2 byte) ++ " in position " ++
      toString position ++ ": " ++ reason

end Fault

end Entail
