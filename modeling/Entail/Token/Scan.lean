import Entail.Fault

/-! Scanning a line into tokens: spaces dropped, the longest connective read whole. -/

namespace Entail.Token

/-- The token that a character forms on its own, if it forms one. -/
def ofChar? (c : Char) : Option Token :=
  if c = '(' then some openParen
  else if c = ')' then some closeParen
  else if c = '!' then some (op .not)
  else if c = '+' then some (op .and)
  else if c = '|' then some (op .or)
  else if c = '^' then some (op .xor)
  else if c = '=' then some (op .equals)
  else if isFactName c then some (fact c)
  else none

/-- The tokens of a list of characters, or the first character that begins no token. -/
def scan : List Char → Except Fault (List Token)
  | [] => .ok []
  | '<' :: '=' :: '>' :: rest => (op .iff :: ·) <$> scan rest
  | '=' :: '>' :: rest => (op .implies :: ·) <$> scan rest
  | c :: rest =>
    match ofChar? c with
    | some t => (t :: ·) <$> scan rest
    | none => .error (.invalidToken c)

/-- A text with its spaces removed; other blank characters stay. -/
def unspaced (s : String) : List Char := s.toList.filter (· ≠ ' ')

/-- The tokens of a text, read after its spaces are removed. -/
def scanText (s : String) : Except Fault (List Token) := scan (unspaced s)

end Entail.Token
