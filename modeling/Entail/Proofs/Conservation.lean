import Entail.Proofs.Lexing

/-! The shunting yard refuses a premise exactly when its parentheses do not balance, and otherwise
keeps each fact and connective once, the facts in their order. -/

namespace Entail

/-- The instruction a token becomes in postfix form: a fact is pushed and a connective applied;
a parenthesis becomes none. -/
def Token.instr? : Token → Option Instr
  | .fact c => some (.push c)
  | .op c => some (.apply c)
  | .openParen | .closeParen => none

/-- The instruction a waiting entry becomes when it leaves the stack. -/
def Waiting.instr? : Waiting → Option Instr
  | .paren => none
  | .op c => some (.apply c)

theorem Waiting.filterMap_instr?_op (ds : List Connective) :
    (ds.map Waiting.op).filterMap Waiting.instr? = ds.map Instr.apply := by
  induction ds with
  | nil => rfl
  | cons d ds ih => simp [Waiting.instr?, ih]

namespace Postfix

/-- The output of the shunting yard is a rearrangement of the facts and connectives of its input
and of the connectives waiting when it starts. -/
theorem shunt_perm {w : List Waiting} {ts : List Token} {code : Postfix}
    (h : shunt w ts = .ok code) :
    code.Perm (ts.filterMap Token.instr? ++ w.filterMap Waiting.instr?) := by
  induction ts generalizing w code with
  | nil =>
      cases hf : flush w with
      | none => simp [shunt, hf] at h
      | some out =>
          simp only [shunt, hf, Except.ok.injEq] at h
          subst h
          obtain ⟨ds, rfl, rfl⟩ := flush_eq_some hf
          rw [List.filterMap_nil, List.nil_append, Waiting.filterMap_instr?_op]
  | cons t ts ih =>
      cases t with
      | fact c =>
          obtain ⟨code', hok, rfl⟩ := Token.map_eq_ok h
          exact (ih hok).cons _
      | op c =>
          obtain ⟨ds, hout, hw⟩ := releaseFor_spec c w
          obtain ⟨code', hok, rfl⟩ := Token.map_eq_ok h
          have hperm := ih hok
          have hwait : w.filterMap Waiting.instr? =
              ds.map Instr.apply ++ (releaseFor c w).2.filterMap Waiting.instr? := by
            conv => lhs; rw [hw]
            rw [List.filterMap_append, Waiting.filterMap_instr?_op]
          rw [hout, hwait]
          rw [List.perm_iff_count] at hperm ⊢
          intro a
          have ha := hperm a
          simp only [List.count_append, List.filterMap_cons, Token.instr?, Waiting.instr?,
            List.count_cons] at ha ⊢
          omega
      | openParen =>
          have hperm := ih (w := .paren :: w) h
          simp only [List.filterMap_cons, Token.instr?, Waiting.instr?] at hperm ⊢
          exact hperm
      | closeParen =>
          cases hc : closeGroup w with
          | none => simp [shunt, hc] at h
          | some group =>
              obtain ⟨out, left⟩ := group
              obtain ⟨ds, rfl, rfl⟩ := closeGroup_eq_some hc
              have hshunt : shunt (ds.map Waiting.op ++ .paren :: left) (.closeParen :: ts) =
                  (ds.map Instr.apply ++ ·) <$> shunt left ts := by
                simp [shunt, hc]
              rw [hshunt] at h
              obtain ⟨code', hok, rfl⟩ := Token.map_eq_ok h
              have hperm := ih hok
              rw [List.perm_iff_count] at hperm ⊢
              intro a
              have ha := hperm a
              simp only [List.count_append, List.filterMap_cons, Token.instr?, Waiting.instr?,
                List.filterMap_append, Waiting.filterMap_instr?_op] at ha ⊢
              omega

/-! ## Balanced parentheses -/

/-- The parentheses balance: no prefix closes more than it opens, and as many close as open. -/
def ParensBalance (ts : List Token) : Prop :=
  (∀ k, (ts.take k).count .closeParen ≤ (ts.take k).count .openParen) ∧
    ts.count .closeParen = ts.count .openParen

/-- Counting depth from `d` ends at `e` exactly when no prefix closes more than `d` beyond what
it opens and the whole closes `e` less than `d` beyond. -/
theorem parenDepth_eq_some_iff (ts : List Token) (d e : Nat) :
    parenDepth d ts = some e ↔
      (∀ k, (ts.take k).count .closeParen ≤ d + (ts.take k).count .openParen) ∧
        e + ts.count .closeParen = d + ts.count .openParen := by
  induction ts generalizing d with
  | nil => simp [parenDepth, eq_comm]
  | cons t ts ih =>
      -- the prefixes of `t :: ts` are the empty one and `t` before each prefix of `ts`
      have htake : ∀ P : List Token → Prop,
          (∀ k, P ((t :: ts).take k)) ↔ P [] ∧ ∀ k, P (t :: ts.take k) := by
        intro P
        refine ⟨fun h => ⟨h 0, fun k => h (k + 1)⟩, fun h k => ?_⟩
        cases k with
        | zero => exact h.1
        | succ k => exact h.2 k
      rw [htake fun l => l.count .closeParen ≤ d + l.count .openParen]
      cases t with
      | openParen =>
          rw [parenDepth, ih]
          simp only [List.count_cons, List.count_nil, beq_self_eq_true, if_true, Nat.zero_le,
            true_and]
          exact and_congr (forall_congr' fun k => by simp; omega) (by simp; omega)
      | closeParen =>
          cases d with
          | zero =>
              -- a closing parenthesis with none open: the prefix of one token breaks the balance
              simp only [parenDepth, reduceCtorEq, false_iff]
              rintro ⟨⟨-, h⟩, -⟩
              simpa using h 0
          | succ d =>
              rw [parenDepth, ih]
              simp only [List.count_cons, List.count_nil, beq_self_eq_true, if_true, Nat.zero_le,
                true_and]
              exact and_congr (forall_congr' fun k => by simp; omega) (by simp; omega)
      | fact c => simp [parenDepth, ih]
      | op c => simp [parenDepth, ih]

theorem balanced_iff {ts : List Token} : Balanced ts ↔ ParensBalance ts := by
  rw [Balanced, parenDepth_eq_some_iff]
  simp [ParensBalance]

instance (ts : List Token) : Decidable (ParensBalance ts) :=
  decidable_of_iff (parenDepth 0 ts = some 0) balanced_iff

/-- The shunting yard refuses a premise, always as mismatched parentheses, exactly when its
parentheses do not balance. Otherwise its output holds the facts and connectives of the premise,
each exactly once, and the facts in their order. -/
theorem ofTokens_keeps_operands (ts : List Token) :
    (ofTokens ts = .error .mismatchedParens ↔ ¬ ParensBalance ts) ∧
    (∀ e, ofTokens ts = .error e → e = .mismatchedParens) ∧
    (ParensBalance ts → ∃ code, ofTokens ts = .ok code ∧
      code.Perm (ts.filterMap Token.instr?) ∧
      code.filterMap Instr.name? = ts.filterMap Token.name?) := by
  rcases shunt_result [] ts with ⟨he, hd⟩ | ⟨code, hok, hd, hnm, -⟩
  · have hbal : ¬ ParensBalance ts := balanced_iff.not.mp hd
    refine ⟨iff_of_true he hbal, fun e h => ?_, fun h => absurd h hbal⟩
    rw [ofTokens, he] at h
    exact (Except.error.inj h).symm
  · have hbal : ParensBalance ts := balanced_iff.mp hd
    have hperm := shunt_perm hok
    simp only [List.filterMap_nil, List.append_nil] at hperm
    refine ⟨iff_of_false (by simp [ofTokens, hok]) (not_not.mpr hbal), fun e h => ?_,
      fun _ => ⟨code, hok, hperm, hnm⟩⟩
    simp [ofTokens, hok] at h

/-- The premise `(A+B)|!C` is put into postfix form with its facts and connectives rearranged. -/
theorem ofTokens_keeps_sample :
    ParensBalance [.openParen, .fact 'A', .op .and, .fact 'B', .closeParen, .op .or,
      .op .not, .fact 'C'] ∧
    ∃ code, ofTokens [.openParen, .fact 'A', .op .and, .fact 'B', .closeParen, .op .or,
      .op .not, .fact 'C'] = .ok code ∧
      code.Perm [.push 'A', .apply .and, .push 'B', .apply .or, .apply .not, .push 'C'] ∧
      code.filterMap Instr.name? = ['A', 'B', 'C'] := by
  have hbal : ParensBalance [.openParen, .fact 'A', .op .and, .fact 'B', .closeParen, .op .or,
      .op .not, .fact 'C'] := by decide
  exact ⟨hbal, (ofTokens_keeps_operands _).2.2 hbal⟩

end Postfix

end Entail
