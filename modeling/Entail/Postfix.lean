import Entail.Fault

/-! Postfix code for a stack machine, and the shunting yard that puts infix tokens into it by
precedence. -/

namespace Entail

/-- An instruction of the stack machine. -/
inductive Instr
  | push (name : Char)
  | apply (c : Connective)
deriving DecidableEq, Repr

/-- An expression in postfix form. -/
abbrev Postfix := List Instr

/-- An entry of the stack of what waits for its operands: a connective, or an open parenthesis. -/
inductive Waiting
  | paren
  | op (c : Connective)
deriving DecidableEq, Repr

namespace Postfix

/-- Moves the waiting connectives that bind at least as tightly as `c` to the output, up to the
first parenthesis or looser connective; gives them and what still waits. -/
def releaseFor (c : Connective) : List Waiting → List Instr × List Waiting
  | .op d :: rest =>
    if c.precedence ≤ d.precedence then
      let (out, left) := releaseFor c rest
      (.apply d :: out, left)
    else ([], .op d :: rest)
  | waiting => ([], waiting)

/-- Moves the waiting connectives up to the nearest open parenthesis to the output and drops the
parenthesis; nothing if no parenthesis waits. -/
def closeGroup : List Waiting → Option (List Instr × List Waiting)
  | [] => none
  | .paren :: rest => some ([], rest)
  | .op d :: rest => (closeGroup rest).map fun (out, left) => (.apply d :: out, left)

/-- Everything still waiting at the end, in order; nothing if a parenthesis is left open. -/
def flush : List Waiting → Option (List Instr)
  | [] => some []
  | .paren :: _ => none
  | .op d :: rest => (.apply d :: ·) <$> flush rest

/-- The postfix form of the remaining tokens, given what waits. -/
def shunt (waiting : List Waiting) : List Token → Except Fault Postfix
  | [] =>
    match flush waiting with
    | some out => .ok out
    | none => .error .mismatchedParens
  | .fact c :: rest => (.push c :: ·) <$> shunt waiting rest
  | .op c :: rest =>
    let (out, left) := releaseFor c waiting
    (out ++ ·) <$> shunt (.op c :: left) rest
  | .openParen :: rest => shunt (.paren :: waiting) rest
  | .closeParen :: rest =>
    match closeGroup waiting with
    | some (out, left) => (out ++ ·) <$> shunt left rest
    | none => .error .mismatchedParens

/-- The postfix form of an infix expression. -/
def ofTokens (ts : List Token) : Except Fault Postfix := shunt [] ts

end Postfix

end Entail
