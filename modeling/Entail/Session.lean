import Entail.Infer
import Entail.Text.Upper
import Entail.Text.Blank

/-! Interactive sessions, which build a rule book line by line and answer it on `EXEC`. -/

namespace Entail

open Text Infer

/-- The state of a session. -/
structure Session where
  rules : List Rule := []
  initial : String := ""
  queries : String := ""
  facts : FactTable := .empty

/-- What a line does to a session. -/
inductive Session.Reply
  /-- The session goes on in the given state, after writing `written`. -/
  | next (s : Session) (written : String)
  /-- The session ends. -/
  | quit
  /-- The session fails with a fault, after writing `written`. -/
  | failed (written : String) (f : Fault)

namespace Session

/-- The answers to the queries under the initial facts, in the session's table. -/
def exec (verbose : Bool) (s : Session) : Session.Reply :=
  let act : Infer Unit := do
    if verbose then
      say ("QUERIES NOW: |" ++ s.queries ++ "| | RULES: " ++ (← table).showRules s.rules)
    assume s.initial.toList
    answerAll true verbose s.rules s.queries.toList
  match act.run ⟨s.facts, ""⟩ with
  | .ok _ m => .next { s with facts := m.facts } m.written
  | .error e m => .failed m.written e

/-- What one line, as typed, does to the session. -/
def step (verbose : Bool) (s : Session) (typed : String) : Session.Reply :=
  let line := upper typed
  if line = "Q" ∨ line = "QUIT" then .quit
  else if line = "FACTS" then .next s (s.facts.render ++ "\n")
  else if line = "RULES" then .next s (s.facts.showRules s.rules ++ "\n")
  else if line = "EXEC" then s.exec verbose
  else
    match line.toList with
    | [] => .next s ""
    | '=' :: given => .next { s with initial := String.ofList given } ""
    | '?' :: asked => .next { s with queries := trim (String.ofList asked) } ""
    | _ =>
      match Rule.parse s.facts line with
      | (t, .ok r) => .next { s with facts := t, rules := s.rules ++ [r] } ""
      | (t, .error e) =>
        if e.kind = .badValue then .next { s with facts := t } (e.message ++ "\n")
        else .failed "" e

/-- Runs a session over the lines typed: what was written after each line read, and the fault
that ended it, if one did. Reading past the last line is the fault `endOfInput`, and it too has
an entry, empty. -/
def run (verbose : Bool) : Session → List String → List String × Option Fault
  | _, [] => ([""], some .endOfInput)
  | s, typed :: rest =>
    match s.step verbose typed with
    | .quit => ([""], none)
    | .failed written e => ([written], some e)
    | .next s written =>
      let (ws, e) := run verbose s rest
      (written :: ws, e)

end Session

end Entail
