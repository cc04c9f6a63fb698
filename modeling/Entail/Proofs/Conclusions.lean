import Entail.Proofs.Depth
import Entail.Proofs.Arity

/-! How a conclusion is read under the value a rule yields, set against the design's table of
conclusions: resolution settles a fact only where the design does, and agrees with it there. -/

namespace Entail

open Infer

namespace Rule

/-- What a rule yields for its conclusion when its premise has the value `v`: an implication
yields `true` from a true premise and nothing from a false one, an equivalence yields `v`. -/
def result : Arrow → Bool → Option Bool
  | .implies, v => if v then some true else none
  | .iff, v => some v

/-- The conclusions the design reads for the fact `x`: `x`, `!x`, and `x` joined to one other fact
by `+`, `|` or `^`, on either side. -/
def ReadsFor (x : Char) (conclusion : List Token) : Prop :=
  conclusion = [.fact x] ∨ conclusion = [.op .not, .fact x] ∨
    ∃ y, ∃ o ∈ [Connective.and, .or, .xor],
      conclusion = [.fact x, .op o, .fact y] ∨ conclusion = [.fact y, .op o, .fact x]

/-- The design's reading of a conclusion under the result of its rule, where `other` is the value
of the other fact of a conclusion of two facts. -/
def designValue (conclusion : List Token) (result other : Option Bool) : Option Bool :=
  match result, conclusion with
  | none, _ => none
  | some r, [.fact _] => some r
  | some r, [.op .not, _] => some !r
  | some r, [_, .op .or, _] => if r then (if other = some false then some true else none)
    else some false
  | some r, [_, .op .and, _] => if r then some true
    else if other = some true then some false else none
  | some r, [_, .op .xor, _] => if r then other.map (!·) else other
  | some _, _ => none

/-- Resolution's reading of a conclusion of one of the design's shapes when its rule yields
`res`: a single fact takes the result, a negated fact its opposite, and a conjunction is `true`
under a true result; anything else stays unsettled. -/
def conclusionValue : List Token → Bool → Option Bool
  | [.fact _], res => some res
  | [.op .not, _], res => some !res
  | [_, .op .and, _], res => if res then some true else none
  | _, _ => none

/-- The rows of the design that resolution follows, for the fact `x` under the result `result`
and the other fact's value `other`: a single fact, a negated fact, a conjunction under a true
result, and every row where the design leaves the fact undetermined. -/
def Followed (x : Char) (conclusion : List Token) (result other : Option Bool) : Prop :=
  conclusion = [.fact x] ∨ conclusion = [.op .not, .fact x] ∨
    (∃ y, (conclusion = [.fact x, .op .and, .fact y] ∨ conclusion = [.fact y, .op .and, .fact x]) ∧
      result = some true) ∨
    designValue conclusion result other = none

/-- On the rows it follows, resolution's reading is the design's. -/
theorem bind_conclusionValue {x : Char} {conclusion : List Token} {result other : Option Bool}
    (hshape : ReadsFor x conclusion) (hrow : Followed x conclusion result other) :
    result.bind (conclusionValue conclusion) = designValue conclusion result other := by
  cases result with
  | none => rfl
  | some b =>
      rcases hshape with rfl | rfl | ⟨y, o, ho, rfl | rfl⟩
      · rfl
      · rfl
      -- two facts: the connective, the result and the row decide
      all_goals
        simp only [List.mem_cons, List.not_mem_nil, or_false] at ho
        rcases ho with rfl | rfl | rfl <;> cases b <;>
          simp_all [Followed, designValue, conclusionValue]

end Rule

/-- Outside a session and without reports, a conclusion of one of the design's shapes is read
without touching the memory. -/
theorem Infer.conclude_of_readsFor {x : Char} {conclusion : List Token}
    (h : Rule.ReadsFor x conclusion) (res : Bool) :
    conclude false false conclusion res = pure (Rule.conclusionValue conclusion res) := by
  rcases h with rfl | rfl | ⟨y, o, ho, rfl | rfl⟩
  · rfl
  · rfl
  all_goals
    simp only [List.mem_cons, List.not_mem_nil, or_false] at ho
    rcases ho with rfl | rfl | rfl <;> rfl

/-- Resolving a fact that is not atomic and that exactly one rule concludes, a rule whose premise
does not mention it: the premise is evaluated by the nested resolutions, and the conclusion is read
under the rule's result. -/
theorem Infer.resolve_single_rule {rules : List Rule} {r : Rule} {U : List Char} {x : Char}
    {m m' : Memory} {code : Postfix} {v : Bool} (hx : x ∈ U)
    (hderived : (m.facts.get x).atomic = false)
    (hone : rules.filter (fun r => r.conclusion.contains (.fact x)) = [r])
    (hself : Token.fact x ∉ r.premise) (hshape : Rule.ReadsFor x r.conclusion)
    (hcode : Postfix.ofTokens r.premise = .ok code)
    (hpremise : (Postfix.run (resolve false rules false (U.erase x)) [] code).run m = .ok v m') :
    (resolve false rules false U x).run m =
      .ok ((Rule.result r.arrow v).bind (Rule.conclusionValue r.conclusion)) m' := by
  have hskip : r.premise.contains (.fact x) = false := by simpa using hself
  rw [resolve, dif_pos hx]
  simp only [Bool.false_eq_true, if_false]
  rw [run_table_bind]
  simp only [hderived, Bool.false_eq_true, if_false, hone, List.foldlM_cons, List.foldlM_nil,
    hskip, hcode, lift, EStateM.run_bind, EStateM.run_pure, hpremise,
    conclude_of_readsFor hshape]
  -- the rule's arrow decides what the premise's value yields
  obtain ⟨premise, arrow, conclusion⟩ := r
  cases arrow with
  | implies => cases v <;> rfl
  | iff => rfl

/-- Resolution follows the design's reading of a conclusion on the rows it follows: resolving a
fact that is not atomic, that exactly one rule concludes, and that the rule's premise does not
mention, gives what the design reads the rule's conclusion as, under the rule's result and whatever
the value of the other fact. -/
theorem Infer.resolve_follows_design {rules : List Rule} {r : Rule} {U : List Char} {x : Char}
    {m m' : Memory} {code : Postfix} {v : Bool} (other : Option Bool) (hx : x ∈ U)
    (hderived : (m.facts.get x).atomic = false)
    (hone : rules.filter (fun r => r.conclusion.contains (.fact x)) = [r])
    (hself : Token.fact x ∉ r.premise) (hshape : Rule.ReadsFor x r.conclusion)
    (hcode : Postfix.ofTokens r.premise = .ok code)
    (hpremise : (Postfix.run (resolve false rules false (U.erase x)) [] code).run m = .ok v m')
    (hrow : Rule.Followed x r.conclusion (Rule.result r.arrow v) other) :
    (resolve false rules false U x).run m =
      .ok (Rule.designValue r.conclusion (Rule.result r.arrow v) other) m' := by
  rw [resolve_single_rule hx hderived hone hself hshape hcode hpremise,
    Rule.bind_conclusionValue hshape hrow]

theorem Infer.resolve_follows_design_sample :
    let r : Rule := ⟨[.fact 'A'], .iff, [.op .not, .fact 'X']⟩
    let m : Memory := ⟨Rule.enter .empty r.premise r.conclusion, ""⟩
    let m' : Memory := { m with facts := m.facts.modify 'A' fun f => { f with value := some false } }
    ('X' ∈ ['X'] ∧ (m.facts.get 'X').atomic = false ∧
      [r].filter (fun r' => r'.conclusion.contains (.fact 'X')) = [r] ∧
      Token.fact 'X' ∉ r.premise ∧ Rule.ReadsFor 'X' r.conclusion ∧
      Postfix.ofTokens r.premise = .ok [.push 'A'] ∧
      (Postfix.run (resolve false [r] false (['X'].erase 'X')) [] [.push 'A']).run m = .ok false m' ∧
      Rule.Followed 'X' r.conclusion (Rule.result r.arrow false) none) ∧
    (resolve false [r] false ['X'] 'X').run m =
      .ok (Rule.designValue r.conclusion (Rule.result r.arrow false) none) m' := by
  intro r m m'
  -- the premise's letter is not unvisited, so it resolves to nothing and is set false
  have hA : (resolve false [r] false [] 'A').run m = .ok none m := by
    rw [resolve, dif_neg (by decide)]
    rfl
  have hpremise : (Postfix.run (resolve false [r] false (['X'].erase 'X')) [] [.push 'A']).run m =
      .ok false m' := by
    rw [show ['X'].erase 'X' = [] from rfl, Postfix.run_push_of_none hA, Postfix.run.eq_1]
    rfl
  have hderived : (m.facts.get 'X').atomic = false := by decide +kernel
  have hcode : Postfix.ofTokens r.premise = .ok [.push 'A'] := rfl
  have hrow : Rule.Followed 'X' r.conclusion (Rule.result r.arrow false) none := .inr (.inl rfl)
  refine ⟨⟨by decide, hderived, by decide, by decide, .inr (.inl rfl), hcode, hpremise, hrow⟩,
    ?_⟩
  exact resolve_follows_design none (by decide) hderived (by decide) (by decide) (.inr (.inl rfl))
    hcode hpremise hrow

/-- An exclusive disjunction settles nothing. From `A <=> X ^ Y` with `A` false and `Y` given, the
design reads `X` as the value of `Y`, true; resolution leaves `X` unsettled and the program
answers false. -/
theorem run_exclusive_conclusion_unsettled :
    Rule.designValue [.fact 'X', .op .xor, .fact 'Y'] (Rule.result .iff false) (some true) =
        some true ∧
      Program.run [] "A <=> X ^ Y\n=Y\n?X\n" = ⟨"Q[X]: False\n", "", .exit 0⟩ :=
  ⟨rfl, by decide +kernel⟩

end Entail
