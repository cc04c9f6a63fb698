/-! Facts: a proposition named by a capital letter, with its truth value when settled and whether
it is atomic, read from the initial facts rather than derived. -/

namespace Entail

/-- How a truth value is written; an unsettled one is `None`. -/
def truthText : Option Bool → String
  | none => "None"
  | some true => "True"
  | some false => "False"

/-- How a settled truth value is written. -/
def boolText (b : Bool) : String := truthText (some b)

/-- What is known of a fact. A fresh fact is unsettled and atomic. -/
structure Fact where
  value : Option Bool := none
  atomic : Bool := true
deriving DecidableEq, Repr

/-- The fact that nothing is known of yet. -/
def Fact.fresh : Fact := {}

/-- How a fact is shown under a name: the name, its value, and `[T]` if atomic or `[F]` if not. -/
def Fact.render (name : String) (f : Fact) : String :=
  name ++ ": " ++ truthText f.value ++ " [" ++ (if f.atomic then "T" else "F") ++ "]"

end Entail
