import Entail.Listing

/-! Backward chaining over a rule book, in a state of the fact table and the text written: the last
rule that gives an answer decides, and no fact is resolved inside its own resolution. -/

namespace Entail

/-- The state of an inference: the fact table, and the text written so far. -/
structure Memory where
  facts : FactTable
  written : String

/-- A computation over the memory that may fail with a fault. -/
abbrev Infer := EStateM Fault Memory

namespace Infer

/-- Writes a line. -/
def say (line : String) : Infer Unit :=
  modify fun m => { m with written := m.written ++ line ++ "\n" }

/-- The fact table as it stands. -/
def table : Infer FactTable := return (← get).facts

/-- Changes the fact under a letter. -/
def update (c : Char) (g : Fact → Fact) : Infer Unit :=
  modify fun m => { m with facts := m.facts.modify c g }

/-- Changes every fact. -/
def updateAll (g : Fact → Fact) : Infer Unit :=
  modify fun m => { m with facts := m.facts.modifyAll g }

/-- The result of a step that cannot touch the memory. -/
def lift {α : Type} : Except Fault α → Infer α
  | .ok a => pure a
  | .error e => throw e

end Infer

open Infer

/-- A value on the machine's stack: a settled truth value, or a fact that resolved to nothing and
was set false. -/
inductive Operand
  | known (b : Bool)
  | unsettled (c : Char)
deriving DecidableEq, Repr

namespace Operand

/-- The truth value an operand counts as. -/
def truth : Operand → Bool
  | known b => b
  | unsettled _ => false

/-- How an operand is shown in a fault. -/
def display (t : FactTable) : Operand → String
  | known b => boolText b
  | unsettled c => t.showFact c

end Operand

/-- Runs postfix code on a stack, resolving each pushed fact with `resolve`. The code must leave
exactly one value. -/
def Postfix.run (resolve : Char → Infer (Option Bool)) : List Operand → Postfix → Infer Bool
  | [x], [] => pure x.truth
  | _, [] => throw .notSingleValue
  | stack, .push c :: rest => do
    match ← resolve c with
    | some b => Postfix.run resolve (.known b :: stack) rest
    | none =>
      update c fun f => { f with value := some false }
      Postfix.run resolve (.unsettled c :: stack) rest
  | [], .apply c :: _ => throw (.noOperand c)
  | x :: stack, .apply c :: rest =>
    if c.isUnary then Postfix.run resolve (.known (!x.truth) :: stack) rest
    else
      match stack with
      | [] => do throw (.oneOperand c (x.display (← table)))
      | y :: below => Postfix.run resolve (.known (c.combine y.truth x.truth) :: below) rest

namespace Infer

/-- What a conclusion says of the queried fact when the rule yields `res`. A single fact takes the
value; a negation `!X` takes its opposite; a conjunction of two takes `true` when `res` is true
and stays unsettled otherwise, and in an interactive session it is refused. A single token other
than a fact, or three tokens without `+` between them, settle nothing; other shapes are faults.
With `verbose`, the conclusion and the value are written first. -/
def conclude (inSession verbose : Bool) (conclusion : List Token) (res : Bool) :
    Infer (Option Bool) := do
  if verbose then say ("RHS: " ++ (← table).showTokens conclusion ++ " as: " ++ boolText res)
  match conclusion with
  | [.fact _] => pure (some res)
  | [_] => pure none
  | [.op .not, _] => pure (some (!res))
  | [.openParen, _] | [.closeParen, _] => throw .parenInConclusion
  | [_, _] => throw (.invalidConclusion ((← table).showTokens conclusion))
  | [_, middle, _] =>
    if inSession then throw .conclusionInSession
    else
      match middle with
      | .openParen | .closeParen => throw .parenInConclusion
      | .op .and => pure (if res then some true else none)
      | _ => pure none
  | _ => throw (.invalidConclusion ((← table).showTokens conclusion))

/-- Erasing a member shortens a list of letters: the measure under which resolution ends. -/
theorem length_erase_lt_of_mem {l : List Char} {c : Char} (h : c ∈ l) :
    (l.erase c).length < l.length := by
  rw [List.length_erase_of_mem h]
  have := List.length_pos_of_mem h
  omega

/-- Resolves the fact `c`, with `unvisited` the letters not yet under resolution. A letter outside
`unvisited` resolves to nothing at once. With `verbose`, the steps of this resolution (not of the
nested ones) are written. -/
def resolve (inSession : Bool) (rules : List Rule) (verbose : Bool) (unvisited : List Char)
    (c : Char) : Infer (Option Bool) :=
  if h : c ∈ unvisited then do
    have := length_erase_lt_of_mem h
    if verbose then say ("Resolving query: " ++ (← table).showFact c)
    let f := (← table).get c
    if f.atomic then pure f.value
    else
      let relevant := rules.filter fun r => r.conclusion.contains (.fact c)
      if verbose then say ("RULES WITH RHS: " ++ (← table).showRules relevant)
      relevant.foldlM (fun acc r => do
        if r.premise.contains (.fact c) then
          say "Recursion attempted"
          pure acc
        else
          let code ← lift (Postfix.ofTokens r.premise)
          if verbose then say ("RPN: " ++ (← table).showPostfix code)
          let v ← Postfix.run (resolve inSession rules false (unvisited.erase c)) [] code
          if verbose then say ("LHS EVAL: " ++ boolText v ++ " is None: False")
          match r.arrow with
          | .implies =>
            if verbose then say "Resolving implication"
            if v then conclude inSession verbose r.conclusion true
            else
              if verbose then say "Proposition is False, moving on"
              pure acc
          | .iff =>
            if verbose then say "Resolving equivalence"
            conclude inSession verbose r.conclusion v) none
  else pure none
termination_by unvisited.length

/-- Answers one query: its value, unsettled read as false, or that the letter is unknown. -/
def answer (inSession verbose : Bool) (rules : List Rule) (q : Char) : Infer Unit := do
  let t ← table
  if t.contains q then
    let v ← resolve inSession rules verbose t.keys q
    say ("Q[" ++ q.toString ++ "]: " ++ boolText (v.getD false))
  else say ("Query is not understood: " ++ q.toString)

/-- Answers the queries in order. -/
def answerAll (inSession verbose : Bool) (rules : List Rule) (queries : List Char) : Infer Unit :=
  queries.forM (answer inSession verbose rules)

/-- Takes the initial facts: atomic facts are reset, each initial letter becomes an atomic true
fact (a letter the table lacks is reported), and the atomic facts left unsettled become false. -/
def assume (initial : List Char) : Infer Unit := do
  updateAll fun f => if f.atomic then { f with value := none } else f
  initial.forM fun c => do
    if (← table).contains c then update c fun _ => { value := some true, atomic := true }
    else say ("Initial fact " ++ c.toString ++ " doesn't exist in graph")
  updateAll fun f => if f.atomic && f.value == none then { f with value := some false } else f

end Infer

end Entail
