import Entail.Proofs.Evaluation

/-! The stack machine fails on postfix code exactly where a scan of its arity fails. -/

namespace Entail

open Infer

namespace Postfix

/-- The height of the machine's stack after the code, run from height `n`; nothing once a
connective finds too few operands. -/
def height : Nat → Postfix → Option Nat
  | n, [] => some n
  | n, .push _ :: rest => height (n + 1) rest
  | n, .apply c :: rest =>
    if c.isUnary then (if 0 < n then height n rest else none)
    else if 1 < n then height (n - 1) rest else none

/-- Code that passes the arity scan: run from an empty stack, it leaves exactly one value. -/
def WellFormed (code : Postfix) : Prop := height 0 code = some 1

instance (code : Postfix) : Decidable code.WellFormed :=
  inferInstanceAs (Decidable (height 0 code = some 1))

/-- The resolver that reads a letter resolving to nothing as false, after setting its fact false
as the machine does. -/
def settleFalse (R : Char → Infer (Option Bool)) (c : Char) : Infer (Option Bool) := do
  match ← R c with
  | some b => pure (some b)
  | none =>
    update c fun f => { f with value := some false }
    pure (some false)

end Postfix

/-- The faults of the stack machine itself: a connective without operands, a binary connective
with one, and code that does not leave exactly one value. -/
def Fault.OfStack : Fault → Prop
  | .noOperand _ | .oneOperand _ _ | .notSingleValue => True
  | _ => False

namespace Postfix

theorem height_apply_nil (c : Connective) (rest : Postfix) :
    height 0 (.apply c :: rest) = none := by
  cases hc : c.isUnary <;> simp [height, hc]

/-- A pushed letter that resolves to a value pushes it. -/
theorem run_push_of_some {R : Char → Infer (Option Bool)} {stack : List Operand} {c : Char}
    {rest : Postfix} {m m₁ : Memory} {b : Bool} (hr : (R c).run m = .ok (some b) m₁) :
    (run R stack (.push c :: rest)).run m = (run R (.known b :: stack) rest).run m₁ := by
  rw [run.eq_3, EStateM.run_bind, hr]

/-- A pushed letter that resolves to nothing is set false and pushed as unsettled. -/
theorem run_push_of_none {R : Char → Infer (Option Bool)} {stack : List Operand} {c : Char}
    {rest : Postfix} {m m₁ : Memory} (hr : (R c).run m = .ok none m₁) :
    (run R stack (.push c :: rest)).run m = (run R (.unsettled c :: stack) rest).run
      { m₁ with facts := m₁.facts.modify c fun f => { f with value := some false } } := by
  rw [run.eq_3, EStateM.run_bind, hr]
  rfl

/-- A pushed letter whose resolution fails stops the machine with that fault. -/
theorem run_push_of_error {R : Char → Infer (Option Bool)} {stack : List Operand} {c : Char}
    {rest : Postfix} {m m₁ : Memory} {e : Fault} (hr : (R c).run m = .error e m₁) :
    (run R stack (.push c :: rest)).run m = .error e m₁ := by
  rw [run.eq_3, EStateM.run_bind, hr]

/-- How a run of the machine ends: with a value, the arity scan from the height of its stack
ending at one; with the fault that the resolution of one of its letters met; or with a fault of
its own, the scan failing. -/
theorem run_outcome (R : Char → Infer (Option Bool)) (stack : List Operand) (code : Postfix)
    (m : Memory) :
    (height stack.length code = some 1 ∧ ∃ b m', (run R stack code).run m = .ok b m') ∨
    (∃ e m', (run R stack code).run m = .error e m' ∧
      ∃ c ∈ code.filterMap Instr.name?, ∃ m₁ m₂, (R c).run m₁ = .error e m₂) ∨
    (height stack.length code ≠ some 1 ∧
      ∃ e m', (run R stack code).run m = .error e m' ∧ e.OfStack) := by
  induction code generalizing stack m with
  | nil =>
      -- the run ends: one operand left is the value, none or several is a fault
      by_cases hone : ∃ x, stack = [x]
      · obtain ⟨x, rfl⟩ := hone
        exact .inl ⟨rfl, _, _, by rw [run.eq_1]; rfl⟩
      · have hlen : stack.length ≠ 1 := fun h => hone (List.length_eq_one_iff.mp h)
        exact .inr (.inr ⟨by simpa [height] using hlen, .notSingleValue, m,
          by rw [run.eq_2 _ _ (by simpa using hone)]; rfl, trivial⟩)
  | cons i rest ih =>
      -- a letter of the rest is a letter of the code
      have hsub :
          ∀ d ∈ rest.filterMap Instr.name?, d ∈ (i :: rest).filterMap Instr.name? := by
        intro d hd
        cases i with
        | push c => exact List.mem_cons_of_mem c hd
        | apply c => exact hd
      have hlift : ∀ stack' m', (∃ e m'', (run R stack' rest).run m' = .error e m'' ∧
          ∃ c ∈ rest.filterMap Instr.name?, ∃ m₁ m₂, (R c).run m₁ = .error e m₂) →
          ∃ e m'', (run R stack' rest).run m' = .error e m'' ∧
            ∃ c ∈ (i :: rest).filterMap Instr.name?, ∃ m₁ m₂,
              (R c).run m₁ = .error e m₂ := by
        rintro stack' m' ⟨e, m'', he, c, hc, hR⟩
        exact ⟨e, m'', he, c, hsub c hc, hR⟩
      cases i with
      | push c =>
          have hheight : height stack.length (.push c :: rest) =
              height (stack.length + 1) rest := rfl
          rw [hheight]
          cases hr : (R c).run m with
          | error e m₁ =>
              exact .inr (.inl ⟨e, m₁, run_push_of_error hr, c, by simp [Instr.name?], m, m₁,
                hr⟩)
          | ok r m₁ =>
              cases r with
              | some b =>
                  rw [run_push_of_some hr]
                  exact (ih (.known b :: stack) m₁).imp_right (·.imp_left (hlift _ _))
              | none =>
                  rw [run_push_of_none hr]
                  exact (ih (.unsettled c :: stack) _).imp_right (·.imp_left (hlift _ _))
      | apply c =>
          rcases stack with _ | ⟨x, stack⟩
          · exact .inr (.inr ⟨by simp [height_apply_nil], .noOperand c, m,
              by rw [run.eq_4]; rfl, trivial⟩)
          · cases hu : c.isUnary with
            | true =>
                have hheight : height (x :: stack).length (.apply c :: rest) =
                    height (.known (!x.truth) :: stack).length rest := by
                  simp [height, hu]
                rw [hheight, run_unary R hu]
                exact (ih _ m).imp_right (·.imp_left (hlift _ _))
            | false =>
                rcases stack with _ | ⟨y, below⟩
                · refine .inr (.inr ⟨by simp [height, hu], .oneOperand c (x.display m.facts), m,
                    ?_, trivial⟩)
                  rw [run.eq_5 R x c rest]
                  simp only [hu, Bool.false_eq_true, if_false]
                  rfl
                · have hheight : height (x :: y :: below).length (.apply c :: rest) =
                      height (.known (c.combine y.truth x.truth) :: below).length rest := by
                    simp [height, hu]
                  rw [hheight, run_binary R hu]
                  exact (ih _ m).imp_right (·.imp_left (hlift _ _))

/-- On code that passes the arity scan from the height of its stack, a letter that resolves to
nothing counts as false: the machine computes what it computes with a resolver that gives false
for such a letter, from a stack of the same truth values. -/
theorem run_settleFalse (R : Char → Infer (Option Bool)) (code : Postfix) :
    ∀ stack stack' : List Operand, stack.map Operand.truth = stack'.map Operand.truth →
      height stack.length code = some 1 → run R stack code = run (settleFalse R) stack' code := by
  induction code with
  | nil =>
      intro stack stack' hst hh
      obtain ⟨x, rfl⟩ : ∃ x, stack = [x] := by
        rcases stack with _ | ⟨x, _ | ⟨y, below⟩⟩ <;> simp_all [height]
      obtain ⟨x', rfl⟩ : ∃ x', stack' = [x'] := by
        rcases stack' with _ | ⟨x', _ | ⟨y', below'⟩⟩ <;> simp_all
      simp only [List.map_cons, List.map_nil, List.cons.injEq, and_true] at hst
      rw [run.eq_1, run.eq_1, hst]
  | cons i rest ih =>
      intro stack stack' hst hh
      have hlen : stack.length = stack'.length := by
        simpa using congrArg List.length hst
      cases i with
      | push c =>
          rw [run.eq_3, run.eq_3, settleFalse, bind_assoc]
          congr 1
          funext r
          cases r with
          | some b => exact ih _ _ (by simp [Operand.truth, hst]) hh
          | none =>
              simp only [bind_assoc, pure_bind]
              congr 1
              funext _
              exact ih _ _ (by simp [Operand.truth, hst]) hh
      | apply c =>
          rcases stack with _ | ⟨x, stack⟩
          · simp [height_apply_nil] at hh
          rcases stack' with _ | ⟨x', stack'⟩
          · simp at hlen
          simp only [List.map_cons, List.cons.injEq] at hst
          cases hu : c.isUnary with
          | true =>
              rw [run_unary R hu, run_unary _ hu, hst.1]
              exact ih _ _ (by simp [hst.2]) (by simpa [height, hu] using hh)
          | false =>
              rcases stack with _ | ⟨y, below⟩
              · simp [height, hu] at hh
              rcases stack' with _ | ⟨y', below'⟩
              · simp at hlen
              simp only [List.map_cons, List.cons.injEq] at hst
              rw [run_binary R hu, run_binary _ hu, hst.1, hst.2.1]
              exact ih _ _ (by simp [hst.2.2]) (by simpa [height, hu] using hh)

/-- The stack machine on postfix code of any connectives. It never gives a value on code that
fails the arity scan. On code that passes it, every fault it stops with is one that the resolution
of a letter met, and a letter that resolves to nothing counts as false. While the letters resolve
without failing, it fails exactly when the scan fails, then only with a fault of its own, and
otherwise gives a truth value. -/
theorem run_fails_iff_arity (R : Char → Infer (Option Bool)) (code : Postfix) (m : Memory) :
    (∀ b m', (run R [] code).run m = .ok b m' → code.WellFormed) ∧
    (code.WellFormed → ∀ e m', (run R [] code).run m = .error e m' →
      ∃ c ∈ code.filterMap Instr.name?, ∃ m₁ m₂, (R c).run m₁ = .error e m₂) ∧
    (code.WellFormed → run R [] code = run (settleFalse R) [] code) ∧
    ((∀ c ∈ code.filterMap Instr.name?, ∀ m, ∃ r m', (R c).run m = .ok r m') →
      ((∃ e m', (run R [] code).run m = .error e m') ↔ ¬ code.WellFormed) ∧
      (∀ e m', (run R [] code).run m = .error e m' → e.OfStack) ∧
      (code.WellFormed → ∃ b m', (run R [] code).run m = .ok b m')) := by
  have hsettle : code.WellFormed → run R [] code = run (settleFalse R) [] code :=
    run_settleFalse R code [] [] rfl
  rcases run_outcome R [] code m with
    ⟨hw, b, m', hok⟩ | ⟨e, m', herr, hfrom⟩ | ⟨hw, e, m', herr, hof⟩
  · -- a value: the code passes the scan, and no fault is met
    have hnone : ∀ e' m'', (run R [] code).run m ≠ .error e' m'' := by
      intro e' m'' h
      rw [hok] at h
      cases h
    exact ⟨fun _ _ _ => hw, fun _ e' m'' h => absurd h (hnone e' m''), hsettle,
      fun _ => ⟨iff_of_false (fun ⟨e', m'', h⟩ => hnone e' m'' h) (not_not.mpr hw),
        fun e' m'' h => absurd h (hnone e' m''), fun _ => ⟨b, m', hok⟩⟩⟩
  · -- a resolution failed, which letters that resolve without failing never do
    refine ⟨fun b' m'' h => ?_, fun _ e' m'' h => ?_, hsettle, fun hR => ?_⟩
    · rw [herr] at h
      cases h
    · rw [herr] at h
      cases h
      exact hfrom
    · obtain ⟨c, hc, m₁, m₂, hfail⟩ := hfrom
      obtain ⟨r, m₃, hok⟩ := hR c hc m₁
      rw [hok] at hfail
      cases hfail
  · -- a fault of the machine's own: the code fails the scan
    refine ⟨fun b' m'' h => ?_, fun h => absurd h hw, hsettle,
      fun _ => ⟨iff_of_true ⟨e, m', herr⟩ hw, fun e' m'' h => ?_, fun h => absurd h hw⟩⟩
    · rw [herr] at h
      cases h
    · rw [herr] at h
      cases h
      exact hof

end Postfix

/-- With no rules, resolving a letter reads the table: an atomic fact's value, and nothing for any
other letter; the memory stays as it was. -/
theorem Infer.resolve_without_rules (inSession : Bool) (U : List Char) (c : Char) (m : Memory) :
    (resolve inSession [] false U c).run m =
      .ok (if c ∈ U ∧ (m.facts.get c).atomic = true then (m.facts.get c).value else none)
        m := by
  rw [resolve]
  by_cases hc : c ∈ U
  · by_cases ha : (m.facts.get c).atomic = true
    · simp [hc, ha, table]
    · simp [hc, ha, table]
  · simp [hc]

/-- `A+B` in postfix form, its letters resolved without rules, passes the arity scan and gives a
truth value. -/
theorem run_conj_without_rules :
    (∀ c ∈ ([.push 'A', .push 'B', .apply .and] : Postfix).filterMap Instr.name?, ∀ m,
      ∃ r m', (resolve false [] false ['A', 'B'] c).run m = .ok r m') ∧
    Postfix.WellFormed [.push 'A', .push 'B', .apply .and] ∧
    ∃ b m', (Postfix.run (resolve false [] false ['A', 'B']) []
      [.push 'A', .push 'B', .apply .and]).run sampleMemory = .ok b m' := by
  have hR : ∀ c ∈ ([.push 'A', .push 'B', .apply .and] : Postfix).filterMap Instr.name?, ∀ m,
      ∃ r m', (resolve false [] false ['A', 'B'] c).run m = .ok r m' :=
    fun c _ m => ⟨_, _, Infer.resolve_without_rules false _ c m⟩
  have hw : Postfix.WellFormed [.push 'A', .push 'B', .apply .and] := by decide
  exact ⟨hR, hw, ((Postfix.run_fails_iff_arity _ _ sampleMemory).2.2.2 hR).2.2 hw⟩

end Entail
