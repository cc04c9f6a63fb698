import Entail.Token.Scan
import Entail.Fact.Table

/-! Rule lines: a premise, the first arrow, a conclusion; the facts a line names enter the table
even when the line is refused for an empty side. -/

namespace Entail

/-- The arrows that join a premise to a conclusion. -/
inductive Arrow
  | implies
  | iff
deriving DecidableEq, Repr

/-- How the arrow is written. -/
def Arrow.text : Arrow → String
  | implies => "=>"
  | iff => "<=>"

/-- The arrow a token is, if it is one. -/
def Token.arrow? : Token → Option Arrow
  | op .implies => some .implies
  | op .iff => some .iff
  | _ => none

/-- The letter a token names, if it names one. -/
def Token.name? : Token → Option Char
  | fact c => some c
  | _ => none

/-- A rule: when the premise holds, the conclusion is read as true; an equivalence reads the
conclusion as whatever the premise gives. -/
structure Rule where
  premise : List Token
  arrow : Arrow
  conclusion : List Token
deriving DecidableEq, Repr

namespace Rule

/-- The tokens after an arrow other than arrows, and the last arrow, `a` if no other follows. -/
def afterArrow (a : Arrow) : List Token → Arrow × List Token
  | [] => (a, [])
  | t :: rest =>
    match t.arrow? with
    | some b => afterArrow b rest
    | none =>
      let (last, ts) := afterArrow a rest
      (last, t :: ts)

/-- The tokens before the first arrow and, if there is an arrow, what `afterArrow` makes of the
tokens after it. -/
def split : List Token → List Token × Option (Arrow × List Token)
  | [] => ([], none)
  | t :: rest =>
    match t.arrow? with
    | some a => ([], some (afterArrow a rest))
    | none =>
      let (premise, after) := split rest
      (t :: premise, after)

/-- Enters the facts of a premise and a conclusion into the table, in order; those of the
conclusion are no longer atomic. -/
def enter (t : FactTable) (premise conclusion : List Token) : FactTable :=
  let t := (premise.filterMap Token.name?).foldl FactTable.register t
  (conclusion.filterMap Token.name?).foldl
    (fun t c => (t.register c).modify c fun f => { f with atomic := false }) t

/-- Reads a rule line against a table: the table with the line's facts entered, and the rule or
the fault. A line that does not scan leaves the table as it was. -/
def parse (t : FactTable) (line : String) : FactTable × Except Fault Rule :=
  match Token.scanText line with
  | .error e => (t, .error e)
  | .ok tokens =>
    let (premise, after) := split tokens
    let conclusion := match after with
      | some (_, ts) => ts
      | none => []
    let t := enter t premise conclusion
    match premise, after with
    | [], _ => (t, .error (.emptyPremise line))
    | _, none => (t, .error (.emptyConclusion line))
    | _, some (_, []) => (t, .error (.emptyConclusion line))
    | p :: ps, some (a, c :: cs) => (t, .ok ⟨p :: ps, a, c :: cs⟩)

end Rule

end Entail
