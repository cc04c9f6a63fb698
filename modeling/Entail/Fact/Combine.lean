import Entail.Fact

/-! The connectives on named facts, each with the values it refuses and the name it gives. -/

namespace Entail

/-- A fact under a name. -/
structure NamedFact where
  name : String
  fact : Fact
deriving DecidableEq, Repr

/-- How a named fact is shown. -/
def NamedFact.render (a : NamedFact) : String := a.fact.render a.name

/-- What may stand on the right of a combination. -/
inductive Partner
  | fact (b : NamedFact)
  | truth (b : Bool)
  | nothing
  | text (s : String)
deriving DecidableEq, Repr

/-- How a partner is written in a complaint. -/
def Partner.shown : Partner → String
  | fact b => b.render
  | truth b => boolText b
  | nothing => "None"
  | text s => s

/-- What a combination gives: a new fact, or a bare truth value. -/
inductive Combined
  | fact (f : NamedFact)
  | truth (b : Bool)
deriving DecidableEq, Repr

/-- Why a combination was refused. -/
inductive CombineError
  /-- Two values that cannot be ordered, compared by `relation` in this order. -/
  | unordered (relation : String) (left right : Option Bool)
  /-- A connective applied to values it does not take. -/
  | unsupported (connective : String) (left right : Option Bool)
  /-- A partner that the connective does not take. -/
  | notImplemented (shown : String)
  /-- A partner that the relation has no meaning for. -/
  | noMeaning (shown : String)
deriving DecidableEq, Repr

/-- How the type of a value is named in a complaint. -/
def typeName : Option Bool → String
  | none => "'NoneType'"
  | some _ => "'bool'"

/-- The message of a refusal. -/
def CombineError.message : CombineError → String
  | unordered relation l r =>
    "'" ++ relation ++ "' not supported between instances of " ++ typeName l ++ " and " ++
      typeName r
  | unsupported c l r =>
    "unsupported operand type(s) for " ++ c ++ ": " ++ typeName l ++ " and " ++ typeName r
  | notImplemented shown => shown ++ " is not implemented"
  | noMeaning shown => shown ++ " is not implemented"

/-- Whether a possibly unsettled value counts as true. -/
def truthy : Option Bool → Bool
  | some true => true
  | _ => false

namespace NamedFact

/-- A fresh fact under a name with a settled value. -/
def settled (name : String) (b : Bool) : NamedFact := ⟨name, { value := some b }⟩

/-- Conjunction: the smaller of two values, or the conjunction with a bare value. -/
def conj (a : NamedFact) : Partner → Except CombineError Combined
  | .fact b =>
    match a.fact.value, b.fact.value with
    | some x, some y => .ok (.fact (settled (a.name ++ " & " ++ b.name) (x && y)))
    | x, y => .error (.unordered "<" y x)
  | .truth y =>
    match a.fact.value with
    | some x => .ok (.truth (x && y))
    | none => .error (.unsupported "&" none (some y))
  | p => .error (.notImplemented (a.render ++ " + " ++ p.shown))

/-- Disjunction: the larger of two values, or the disjunction with a bare value. -/
def disj (a : NamedFact) : Partner → Except CombineError Combined
  | .fact b =>
    match a.fact.value, b.fact.value with
    | some x, some y => .ok (.fact (settled (a.name ++ " | " ++ b.name) (x || y)))
    | x, y => .error (.unordered ">" y x)
  | .truth y =>
    match a.fact.value with
    | some x => .ok (.truth (x || y))
    | none => .error (.unsupported "|" none (some y))
  | p => .error (.notImplemented (a.render ++ " | " ++ p.shown))

/-- Exclusive disjunction, under the left name. -/
def exclusive (a : NamedFact) : Partner → Except CombineError Combined
  | .fact b =>
    match a.fact.value, b.fact.value with
    | some x, some y => .ok (.fact (settled a.name (x ^^ y)))
    | x, y => .error (.unsupported "^" x y)
  | .truth y =>
    match a.fact.value with
    | some x => .ok (.truth (x ^^ y))
    | none => .error (.unsupported "^" none (some y))
  | p => .error (.notImplemented (a.render ++ " ^ " ++ p.shown))

/-- Implication, under the left name: false only from true to not true. -/
def imply (a : NamedFact) : Partner → Except CombineError NamedFact
  | .fact b => .ok (settled a.name (!(truthy a.fact.value && !truthy b.fact.value)))
  | p => .error (.noMeaning (a.render ++ " => " ++ p.shown))

/-- Equivalence, under the left name: true when both count as true or neither does. -/
def equivalent (a : NamedFact) : Partner → Except CombineError NamedFact
  | .fact b => .ok (settled a.name (truthy a.fact.value == truthy b.fact.value))
  | p => .error (.noMeaning (a.render ++ " <=> " ++ p.shown))

/-- Negation, under the name with `!` in front. -/
def neg (a : NamedFact) : NamedFact := settled ("!" ++ a.name) (!truthy a.fact.value)

end NamedFact

end Entail
