/-! The tokens of the rule language, and the precedence of each connective. -/

namespace Entail

/-- The connectives of the rule language. -/
inductive Connective
  | not
  | and
  | or
  | xor
  | equals
  | implies
  | iff
deriving DecidableEq, Repr

namespace Connective

/-- How the connective is written. -/
def text : Connective → String
  | not => "!"
  | and => "+"
  | or => "|"
  | xor => "^"
  | equals => "="
  | implies => "=>"
  | iff => "<=>"

/-- How tightly the connective binds. -/
def precedence : Connective → Nat
  | equals => 0
  | iff => 1
  | implies => 2
  | xor => 3
  | or => 4
  | and => 5
  | not => 6

/-- Only negation takes a single operand. -/
def isUnary : Connective → Bool
  | not => true
  | _ => false

/-- The value of a connective on its left and right operands. Conjunction, disjunction and
exclusive disjunction mean what they say; `=`, `=>` and `<=>` give the left operand back, and
negation negates the right one. -/
def combine : Connective → Bool → Bool → Bool
  | and, l, r => l && r
  | or, l, r => l || r
  | xor, l, r => l ^^ r
  | not, _, r => !r
  | equals, l, _ => l
  | implies, l, _ => l
  | iff, l, _ => l

end Connective

/-- Whether a character names a fact: the capital letters `A` to `Z`. -/
def isFactName (c : Char) : Bool := 'A' ≤ c && c ≤ 'Z'

/-- A token of the rule language. -/
inductive Token
  | fact (name : Char)
  | op (c : Connective)
  | openParen
  | closeParen
deriving DecidableEq, Repr

/-- How the token is written. -/
def Token.text : Token → String
  | fact c => c.toString
  | op c => c.text
  | openParen => "("
  | closeParen => ")"

end Entail
