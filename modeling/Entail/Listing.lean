import Entail.Rule
import Entail.Postfix

/-! How tokens, postfix code and rules appear in the output, each fact shown from the table. -/

namespace Entail

open Text

/-- A bracketed list of items separated by commas. -/
def showList (items : List String) : String := "[" ++ ", ".intercalate items ++ "]"

namespace FactTable

/-- A fact shown under its letter. -/
def showFact (t : FactTable) (c : Char) : String := (t.get c).render c.toString

/-- A token as listed. -/
def showToken (t : FactTable) : Token → String
  | .fact c => t.showFact c
  | .op c => c.text
  | .openParen => quote "("
  | .closeParen => quote ")"

/-- A list of tokens as listed. -/
def showTokens (t : FactTable) (ts : List Token) : String := showList (ts.map t.showToken)

/-- An instruction as listed: the fact it pushes, or the connective it applies. -/
def showInstr (t : FactTable) : Instr → String
  | .push c => t.showFact c
  | .apply c => c.text

/-- Postfix code as listed. -/
def showPostfix (t : FactTable) (code : Postfix) : String := showList (code.map t.showInstr)

/-- A rule as listed: `(premise, arrow, conclusion)`. -/
def showRule (t : FactTable) (r : Rule) : String :=
  "(" ++ t.showTokens r.premise ++ ", " ++ r.arrow.text ++ ", " ++ t.showTokens r.conclusion ++ ")"

/-- A list of rules as listed. -/
def showRules (t : FactTable) (rs : List Rule) : String := showList (rs.map t.showRule)

end FactTable

end Entail
