import Entail.RuleBook
import Entail.Session
import Entail.CommandLine
import Entail.Files

/-! The whole program on a command line, an input stream and the files it may read: what it
writes and how it ends. -/

namespace Entail

/-- How a run ends: with an exit status, or with a fault that nothing handled. -/
inductive Ending
  | exit (code : Nat)
  | fault (f : Fault)
deriving DecidableEq, Repr

/-- What a run writes to its two output streams, and how it ends. -/
structure Outcome where
  stdout : String
  stderr : String := ""
  ending : Ending
deriving DecidableEq, Repr

/-- How a fault ends a run after `written`: a bad value is written, with status 1. -/
def Outcome.ofFault (written : String) (e : Fault) : Outcome :=
  if e.kind = .badValue then ⟨written ++ e.message ++ "\n", "", .exit 1⟩
  else ⟨written, "", .fault e⟩

/-- The prompt written before each line is read in a session. -/
def prompt : String := "> "

namespace RuleBook

/-- The steps of answering a rule book, in the memory that its reading left. -/
def answerAll (verbose : Bool) (book : RuleBook) : Infer Unit := do
  Infer.assume book.initial
  if verbose then
    Infer.say ("RULES " ++ (← Infer.table).showRules book.rules)
    Infer.say ("INIT FACTS: " ++ String.ofList book.initial)
    Infer.say ("FACTS: " ++ (← Infer.table).render)
    Infer.say ("QUERIES: " ++ String.ofList book.queries)
  Infer.answerAll false verbose book.rules book.queries

/-- Reads a rule book from its text and answers its queries. -/
def answerText (verbose : Bool) (text : String) : Outcome :=
  match ofLines (cleanLines text) with
  | .error e => Outcome.ofFault "" e
  | .ok book =>
    match (answerAll verbose book).run ⟨book.facts, ""⟩ with
    | .ok _ m => ⟨m.written, "", .exit 0⟩
    | .error e m => Outcome.ofFault m.written e

end RuleBook

/-- The lines of an input stream, each without its newline; the last may lack one. -/
def streamLines (input : String) : List String :=
  match (input.splitOn "\n").reverse with
  | "" :: rest => rest.reverse
  | parts => parts.reverse

/-- Runs a session on the lines of an input stream, with a prompt before every read. -/
def Session.transcript (verbose : Bool) (input : String) : Outcome :=
  let (steps, fault) := Session.run verbose {} (streamLines input)
  let written := String.join (steps.map (prompt ++ ·))
  match fault with
  | none => ⟨written, "", .exit 0⟩
  | some e => ⟨written, "", .fault e⟩

/-- Runs the program on its arguments and its input stream, reading a named file with `read`. -/
def Program.runWith (read : String → Except Fault String) (args : List String) (input : String) :
    Outcome :=
  match Options.parse args with
  | .help => ⟨helpText, "", .exit 0⟩
  | .refused complaint => ⟨"", usageText ++ "es.py: error: " ++ complaint ++ "\n", .exit 2⟩
  | .run o =>
    if o.interactive then Session.transcript o.verbose input
    else
      match o.file with
      | none => RuleBook.answerText o.verbose input
      | some name =>
        match read name with
        | .ok text => RuleBook.answerText o.verbose text
        | .error e => Outcome.ofFault "" e

/-- Runs the program in the working directory of the repository. -/
def Program.run (args : List String) (input : String) : Outcome :=
  Program.runWith Files.read args input

end Entail
