import Entail.Infer

/-! Rule books: lines cleaned of comments and spaces, the rules, the initial facts and the queries,
the last two lines checked first. -/

namespace Entail

/-- A rule book as read: its rules in order, the initial facts, the table of the facts its rules
name, and the queries. -/
structure RuleBook where
  rules : List Rule
  initial : List Char
  facts : FactTable
  queries : List Char

namespace RuleBook

/-- The pieces of a text between the occurrences of a separator, empty pieces kept. -/
def pieces (sep : Char) (s : String) : List String := (s.toList.splitOn sep).map String.ofList

/-- The words of a line: the pieces between its spaces, without empty ones. -/
def words (line : String) : List String := (pieces ' ' line).filter (· ≠ "")

/-- A line without its comment and with single spaces; nothing if no word is left. -/
def cleanLine (line : String) : Option String :=
  match (words line).takeWhile fun w => w.toList.head? != some '#' with
  | [] => none
  | ws => some (" ".intercalate ws)

/-- The lines of a text that carry something, cleaned. -/
def cleanLines (text : String) : List String := (pieces '\n' text).filterMap cleanLine

/-- The letters after `mark`, if the line is `mark` followed by capital letters only. -/
def marked (mark : Char) (line : String) : Option (List Char) :=
  match line.toList with
  | c :: rest => if c = mark ∧ rest.all isFactName then some rest else none
  | [] => none

/-- Reads rule lines in order into the table; the first faulty line stops the reading. -/
def parseRules : FactTable → List String → Except Fault (FactTable × List Rule)
  | t, [] => .ok (t, [])
  | t, line :: lines =>
    match Rule.parse t line with
    | (_, .error e) => .error e
    | (t, .ok r) => (fun (t, rs) => (t, r :: rs)) <$> parseRules t lines

/-- Reads a rule book from its cleaned lines. -/
def ofLines (lines : List String) : Except Fault RuleBook :=
  match lines.reverse with
  | query :: initial :: rest =>
    match marked '?' query with
    | none => .error (.invalidQuery query)
    | some queries =>
      match marked '=' initial with
      | none => .error (.invalidInitialFacts initial)
      | some given => do
        let (facts, rules) ← parseRules .empty rest.reverse
        pure ⟨rules, given, facts, queries⟩
  | _ => .error .insufficientInput

end RuleBook

end Entail
