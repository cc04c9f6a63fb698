import Mathlib
import Entail.Postfix
import Entail.Rule

/-! Premises as formulas over fact letters: the grammar that reads them by precedence, and their
postfix programs. -/

namespace Entail

/-- The binary connectives of a premise. -/
inductive BinOp
  | conj
  | disj
  | xor
deriving DecidableEq, Repr

namespace BinOp

/-- The connective that writes the operator. -/
def connective : BinOp → Connective
  | conj => .and
  | disj => .or
  | xor => .xor

/-- The truth table of the operator. -/
def eval : BinOp → Bool → Bool → Bool
  | conj, a, b => a && b
  | disj, a, b => a || b
  | xor, a, b => Bool.xor a b

@[simp] theorem isUnary_connective (o : BinOp) : o.connective.isUnary = false := by
  cases o <;> rfl

@[simp] theorem combine_connective (o : BinOp) : o.connective.combine = o.eval := by
  cases o <;> rfl

theorem precedence_lt_not (o : BinOp) :
    o.connective.precedence < Connective.not.precedence := by
  cases o <;> decide

end BinOp

@[simp] theorem Token.name?_fact (c : Char) : (Token.fact c).name? = some c := rfl
@[simp] theorem Token.name?_op (c : Connective) : (Token.op c).name? = none := rfl
@[simp] theorem Token.name?_openParen : Token.openParen.name? = none := rfl
@[simp] theorem Token.name?_closeParen : Token.closeParen.name? = none := rfl

/-- A formula over fact letters. -/
inductive Formula
  | atom (c : Char)
  | neg (a : Formula)
  | bin (o : BinOp) (a b : Formula)
deriving DecidableEq, Repr

namespace Formula

/-- The value of a formula when each letter takes the value `ν` gives it. -/
def eval (ν : Char → Bool) : Formula → Bool
  | atom c => ν c
  | neg a => !a.eval ν
  | bin o a b => o.eval (a.eval ν) (b.eval ν)

/-- The letters of a formula, in reading order. -/
def letters : Formula → List Char
  | atom c => [c]
  | neg a => a.letters
  | bin _ a b => a.letters ++ b.letters

/-- The postfix program of a formula: the operands first, then their connective. -/
def code : Formula → Postfix
  | atom c => [.push c]
  | neg a => a.code ++ [.apply .not]
  | bin o a b => a.code ++ b.code ++ [.apply o.connective]

/-- `Reads p ts f`: the tokens `ts` form an expression whose connectives outside parentheses bind
at least as tightly as precedence `p`, and the expression reads as `f`. The operand of a negation
binds as tightly as negation itself; the right operand of a binary connective binds strictly more
tightly than the connective, so that equal connectives group to the left. -/
inductive Reads : Nat → List Token → Formula → Prop
  | atom {p : Nat} {c : Char} : isFactName c = true → Reads p [.fact c] (atom c)
  | paren {p : Nat} {ts : List Token} {f : Formula} :
      Reads 0 ts f → Reads p (.openParen :: (ts ++ [.closeParen])) f
  | neg {p : Nat} {ts : List Token} {f : Formula} :
      Reads Connective.not.precedence ts f → Reads p (.op .not :: ts) (neg f)
  | bin {p : Nat} {l r : List Token} {a b : Formula} (o : BinOp) :
      p ≤ o.connective.precedence → Reads o.connective.precedence l a →
      Reads (o.connective.precedence + 1) r b → Reads p (l ++ .op o.connective :: r) (bin o a b)

/-- The letters a premise mentions are the letters of the formula it reads as. -/
theorem Reads.names {p : Nat} {ts : List Token} {f : Formula} (h : Reads p ts f) :
    ts.filterMap Token.name? = f.letters := by
  induction h with
  | atom => rfl
  | paren _ ih => simp [List.filterMap_cons, ih]
  | neg _ ih => simp [List.filterMap_cons, letters, ih]
  | bin o _ _ _ ihl ihr => simp [List.filterMap_cons, letters, ihl, ihr]

end Formula

/-- No negation sign follows another directly. -/
def NoDoubleNeg (ts : List Token) : Prop := ¬ [Token.op .not, Token.op .not] <:+: ts

instance (ts : List Token) : Decidable (NoDoubleNeg ts) :=
  inferInstanceAs (Decidable (¬ _ <:+: _))

theorem NoDoubleNeg.mono {ts us : List Token} (h : NoDoubleNeg ts) (hu : us <:+: ts) :
    NoDoubleNeg us :=
  fun hn => h (hn.trans hu)

/-- The operand of a negation in a text with no double negation does not begin with one. -/
theorem NoDoubleNeg.head_ne {ts : List Token} (h : NoDoubleNeg (.op .not :: ts)) :
    ts.head? ≠ some (.op .not) := by
  intro hh
  cases ts with
  | nil => simp at hh
  | cons t ts =>
      simp only [List.head?_cons, Option.some.injEq] at hh
      subst hh
      exact h ⟨[], ts, rfl⟩

end Entail
