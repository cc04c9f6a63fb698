import Entail.Proofs.Formula

/-! The shunting yard turns a premise into the postfix program of the formula it reads as,
unless two negation signs follow each other. -/

namespace Entail

/-! ## Weights

How each instruction changes the height of the stack machine's stack, and the same count on the
tokens it comes from. -/

/-- How a connective changes the height of the stack: a binary one takes an operand away. -/
def Connective.weight (c : Connective) : Int := if c.isUnary then 0 else -1

/-- How an instruction changes the height of the stack. -/
def Instr.weight : Instr → Int
  | .push _ => 1
  | .apply c => c.weight

/-- The weight of a token: one for a fact, minus one for a binary connective. -/
def Token.weight : Token → Int
  | .fact _ => 1
  | .op c => c.weight
  | .openParen | .closeParen => 0

/-- The letter an instruction pushes, if it pushes one. -/
def Instr.name? : Instr → Option Char
  | .push c => some c
  | .apply _ => none

@[simp] theorem Instr.name?_apply (c : Connective) : (Instr.apply c).name? = none := rfl

/-- The weight of a waiting entry: that of the connective it holds. -/
def Waiting.weight : Waiting → Int
  | .paren => 0
  | .op c => c.weight

namespace Postfix

open Formula

/-! ## The stack of waiting connectives -/

/-- The top of the stack is no connective that binds at least as tightly as precedence `p`. -/
def Loose (p : Nat) : List Waiting → Prop
  | .op d :: _ => d.precedence < p
  | _ => True

/-- A stack loose for one precedence is loose for every weaker-binding one. -/
theorem Loose.mono {p q : Nat} {w : List Waiting} (h : Loose p w) (hpq : p ≤ q) : Loose q w := by
  cases w with
  | nil => trivial
  | cons x w =>
      cases x with
      | paren => trivial
      | op d =>
          simp only [Loose] at h ⊢
          omega

theorem releaseFor_of_loose {c : Connective} {w : List Waiting} (h : Loose c.precedence w) :
    releaseFor c w = ([], w) := by
  cases w with
  | nil => rfl
  | cons x w =>
      cases x with
      | paren => rfl
      | op d =>
          have hd : ¬ c.precedence ≤ d.precedence := by
            simp only [Loose] at h
            omega
          simp [releaseFor, hd]

theorem releaseFor_append {c : Connective} {ds : List Connective}
    (hds : ∀ d ∈ ds, c.precedence ≤ d.precedence) (w : List Waiting) :
    releaseFor c (ds.map .op ++ w) = (ds.map .apply ++ (releaseFor c w).1, (releaseFor c w).2) := by
  induction ds with
  | nil => simp
  | cons d ds ih =>
      have hd : c.precedence ≤ d.precedence := hds d (by simp)
      simp [releaseFor, hd, ih fun e he => hds e (by simp [he])]

theorem closeGroup_append (ds : List Connective) (w : List Waiting) :
    closeGroup (ds.map .op ++ .paren :: w) = some (ds.map .apply, w) := by
  induction ds with
  | nil => rfl
  | cons d ds ih => simp [closeGroup, ih]

theorem flush_append (ds : List Connective) (w : List Waiting) :
    flush (ds.map .op ++ w) = (ds.map .apply ++ ·) <$> flush w := by
  induction ds with
  | nil => simp
  | cons d ds ih =>
      simp only [List.map_cons, List.cons_append, flush, ih]
      cases flush w <;> rfl

theorem map_append_map (a b : Postfix) (x : Except Fault Postfix) :
    (a ++ ·) <$> ((b ++ ·) <$> x) = ((a ++ b) ++ ·) <$> x := by
  cases x <;> simp [Functor.map, Except.map]

/-! ## A phrase on the stack -/

/-- The stack a phrase at precedence `p` may begin on: its top lets each connective of the phrase
through, or the phrase is the operand of a negation and does not begin with one. -/
def Fits (p : Nat) (ts : List Token) (w : List Waiting) : Prop :=
  Loose p w ∨ (Connective.not.precedence ≤ p ∧ ts.head? ≠ some (.op .not))

/-- Reading a phrase outputs part of its program and leaves the rest waiting on the stack, above
what was there, whatever follows the phrase. -/
theorem shunt_reads {p : Nat} {ts : List Token} {f : Formula} (h : Reads p ts f)
    (hp : p ≤ Connective.not.precedence) (hn : NoDoubleNeg ts) {w : List Waiting}
    (hw : Fits p ts w) :
    ∃ (out : Postfix) (ds : List Connective), out ++ ds.map Instr.apply = f.code ∧
      (∀ d ∈ ds, p ≤ d.precedence) ∧
      ∀ rest, shunt w (ts ++ rest) = (out ++ ·) <$> shunt (ds.map Waiting.op ++ w) rest := by
  induction h generalizing w with
  | @atom p c _ =>
      refine ⟨[.push c], [], rfl, by simp, fun rest => ?_⟩
      simp [shunt]
  | @paren p ts f _ ih =>
      have hin : NoDoubleNeg ts := hn.mono ⟨[.openParen], [.closeParen], by simp⟩
      obtain ⟨out, ds, hcode, -, hrun⟩ :=
        ih (Nat.zero_le _) hin (w := .paren :: w) (Or.inl trivial)
      refine ⟨out ++ ds.map .apply, [], by simpa using hcode, by simp, fun rest => ?_⟩
      simp only [List.cons_append, List.append_assoc, shunt, hrun,
        closeGroup_append, map_append_map, List.map_nil, List.nil_append]
  | @neg p ts f _ ih =>
      have hhead : ts.head? ≠ some (.op .not) := hn.head_ne
      have hloose : Loose p w := hw.resolve_right (by simp)
      have hrel : releaseFor .not w = ([], w) := releaseFor_of_loose (hloose.mono hp)
      obtain ⟨out, ds, hcode, hds, hrun⟩ :=
        ih (Nat.le_refl _) (hn.mono (List.suffix_cons _ _).isInfix) (w := .op .not :: w)
          (Or.inr ⟨Nat.le_refl _, hhead⟩)
      refine ⟨out, ds ++ [.not], ?_, ?_, fun rest => ?_⟩
      · simp [code, ← hcode]
      · intro d hd
        rcases List.mem_append.mp hd with hd | hd
        · exact Nat.le_trans hp (hds d hd)
        · simp only [List.mem_singleton] at hd
          subst hd
          exact hp
      · simp [shunt, hrel, hrun]
  | @bin p l r a b o hpo _ _ ihl ihr =>
      have hlt := o.precedence_lt_not
      have hloose : Loose p w := hw.resolve_right (by omega)
      have hlw : Loose o.connective.precedence w := hloose.mono hpo
      obtain ⟨outl, dsl, hcodel, hdsl, hrunl⟩ :=
        ihl (by omega) (hn.mono (List.prefix_append _ _).isInfix) (Or.inl hlw)
      obtain ⟨outr, dsr, hcoder, hdsr, hrunr⟩ :=
        ihr (by omega) (hn.mono ((List.suffix_cons _ _).trans (List.suffix_append _ _)).isInfix)
          (w := .op o.connective :: w) (Or.inl (by simp [Loose]))
      refine ⟨outl ++ dsl.map .apply ++ outr, dsr ++ [o.connective], ?_, ?_, fun rest => ?_⟩
      · simp [code, ← hcodel, ← hcoder]
      · intro d hd
        rcases List.mem_append.mp hd with hd | hd
        · have := hdsr d hd
          omega
        · simp only [List.mem_singleton] at hd
          subst hd
          exact hpo
      · simp only [List.append_assoc, List.cons_append, hrunl, shunt,
          releaseFor_append hdsl, releaseFor_of_loose hlw, List.append_nil, hrunr,
          Functor.map_map, List.map_append, List.map_cons, List.map_nil, List.nil_append]

/-- A premise that reads as a formula, with no double negation, is put into the formula's
postfix program. -/
theorem ofTokens_reads {ts : List Token} {f : Formula} (h : Reads 0 ts f) (hn : NoDoubleNeg ts) :
    ofTokens ts = .ok f.code := by
  obtain ⟨out, ds, hcode, -, hrun⟩ := shunt_reads h (Nat.zero_le _) hn (w := []) (Or.inl trivial)
  have hflush : flush (ds.map Waiting.op) = some (ds.map Instr.apply) := by
    simpa [flush] using flush_append ds []
  have hts := hrun []
  simp only [List.append_nil] at hts
  simp [ofTokens, hts, shunt, hflush, ← hcode, Functor.map, Except.map]

/-! ## What the stage checks and what it keeps

Whatever the tokens, the stage fails only on parentheses that do not match, and it moves every
fact and every connective to its output: the stack machine's balance of operands over binary
connectives is the same before and after. -/

/-- The depth of open parentheses after reading tokens from depth `d`; nothing once a closing
parenthesis finds none open. -/
def parenDepth : Nat → List Token → Option Nat
  | d, [] => some d
  | d, .openParen :: ts => parenDepth (d + 1) ts
  | 0, .closeParen :: _ => none
  | d + 1, .closeParen :: ts => parenDepth d ts
  | d, .fact _ :: ts => parenDepth d ts
  | d, .op _ :: ts => parenDepth d ts

/-- The parentheses of the tokens match. -/
def Balanced (ts : List Token) : Prop := parenDepth 0 ts = some 0

/-- The open parentheses on the stack. -/
def opens (w : List Waiting) : Nat := w.count .paren

theorem releaseFor_spec (c : Connective) (w : List Waiting) :
    ∃ ds : List Connective, (releaseFor c w).1 = ds.map Instr.apply ∧
      w = ds.map Waiting.op ++ (releaseFor c w).2 := by
  induction w with
  | nil => exact ⟨[], rfl, rfl⟩
  | cons x w ih =>
      cases x with
      | paren => exact ⟨[], rfl, rfl⟩
      | op d =>
          by_cases hd : c.precedence ≤ d.precedence
          · obtain ⟨ds, hout, hw⟩ := ih
            refine ⟨d :: ds, ?_, ?_⟩
            · simp [releaseFor, hd, hout]
            · simp only [releaseFor, hd, if_true, List.map_cons, List.cons_append]
              exact congrArg _ hw
          · exact ⟨[], by simp [releaseFor, hd], by simp [releaseFor, hd]⟩

theorem closeGroup_eq_none {w : List Waiting} : closeGroup w = none ↔ opens w = 0 := by
  induction w with
  | nil => simp [closeGroup, opens]
  | cons x w ih =>
      cases x with
      | paren => simp [closeGroup, opens]
      | op d => simpa [closeGroup, opens] using ih

theorem closeGroup_eq_some {w : List Waiting} {out : Postfix} {left : List Waiting}
    (h : closeGroup w = some (out, left)) :
    ∃ ds : List Connective, out = ds.map Instr.apply ∧ w = ds.map Waiting.op ++ .paren :: left := by
  induction w generalizing out with
  | nil => simp [closeGroup] at h
  | cons x w ih =>
      cases x with
      | paren =>
          simp only [closeGroup, Option.some.injEq, Prod.mk.injEq] at h
          obtain ⟨rfl, rfl⟩ := h
          exact ⟨[], rfl, rfl⟩
      | op d =>
          simp only [closeGroup, Option.map_eq_some_iff] at h
          obtain ⟨⟨out', left'⟩, hgroup, hpair⟩ := h
          simp only [Prod.mk.injEq] at hpair
          obtain ⟨rfl, rfl⟩ := hpair
          obtain ⟨ds, rfl, rfl⟩ := ih hgroup
          exact ⟨d :: ds, rfl, rfl⟩

theorem flush_eq_none {w : List Waiting} : flush w = none ↔ 0 < opens w := by
  induction w with
  | nil => simp [flush, opens]
  | cons x w ih =>
      cases x with
      | paren => simp [flush, opens]
      | op d => simpa [flush, opens] using ih

theorem flush_eq_some {w : List Waiting} {out : Postfix} (h : flush w = some out) :
    ∃ ds : List Connective, out = ds.map Instr.apply ∧ w = ds.map Waiting.op := by
  induction w generalizing out with
  | nil =>
      simp only [flush, Option.some.injEq] at h
      exact ⟨[], h.symm, rfl⟩
  | cons x w ih =>
      cases x with
      | paren => simp [flush] at h
      | op d =>
          simp only [flush, Functor.map, Option.map_eq_some_iff] at h
          obtain ⟨out', hflush, rfl⟩ := h
          obtain ⟨ds, rfl, rfl⟩ := ih hflush
          exact ⟨d :: ds, rfl, rfl⟩

@[simp] theorem weight_comp_apply : Instr.weight ∘ Instr.apply = Connective.weight := rfl

@[simp] theorem weight_comp_op : Waiting.weight ∘ Waiting.op = Connective.weight := rfl

@[simp] theorem opens_nil : opens [] = 0 := rfl

@[simp] theorem opens_op_append (ds : List Connective) (w : List Waiting) :
    opens (ds.map Waiting.op ++ w) = opens w := by
  induction ds with
  | nil => rfl
  | cons d ds ih => simpa [opens] using ih


/-- The stage either fails on unmatched parentheses, or the parentheses match and its output
pushes the facts of the input in order and weighs what the input and the waiting stack weigh
together. -/
theorem shunt_result (w : List Waiting) (ts : List Token) :
    (shunt w ts = .error .mismatchedParens ∧ parenDepth (opens w) ts ≠ some 0) ∨
    (∃ code, shunt w ts = .ok code ∧ parenDepth (opens w) ts = some 0 ∧
      code.filterMap Instr.name? = ts.filterMap Token.name? ∧
      (code.map Instr.weight).sum = (ts.map Token.weight).sum + (w.map Waiting.weight).sum) := by
  induction ts generalizing w with
  | nil =>
      cases hf : flush w with
      | none =>
          have hopen := flush_eq_none.mp hf
          left
          simp only [shunt, hf, parenDepth, ne_eq, Option.some.injEq, true_and]
          omega
      | some out =>
          obtain ⟨ds, rfl, rfl⟩ := flush_eq_some hf
          right
          refine ⟨ds.map Instr.apply, by simp [shunt, hf], ?_, by simp [List.filterMap_map], by simp⟩
          simpa [parenDepth] using opens_op_append ds []
  | cons t ts ih =>
      cases t with
      | fact c =>
          rcases ih w with ⟨he, hd⟩ | ⟨code, hok, hd, hnm, hwt⟩
          · left
            exact ⟨by simp [shunt, he, Functor.map, Except.map], by simpa [parenDepth] using hd⟩
          · right
            refine ⟨.push c :: code, by simp [shunt, hok, Functor.map, Except.map],
              by simpa [parenDepth] using hd, by simp [Instr.name?, hnm], ?_⟩
            simp only [List.map_cons, List.sum_cons, hwt, Instr.weight, Token.weight]
            omega
      | op c =>
          obtain ⟨ds, hout, hw⟩ := releaseFor_spec c w
          have hopen : opens (.op c :: (releaseFor c w).2) = opens w := by
            conv => rhs; rw [hw, opens_op_append]
            simp [opens]
          have hshunt : shunt w (.op c :: ts) =
              ((releaseFor c w).1 ++ ·) <$> shunt (.op c :: (releaseFor c w).2) ts := rfl
          rcases ih (.op c :: (releaseFor c w).2) with ⟨he, hd⟩ | ⟨code, hok, hd, hnm, hwt⟩
          · left
            rw [hopen] at hd
            exact ⟨by simp [hshunt, he, Functor.map, Except.map], by simpa [parenDepth] using hd⟩
          · right
            rw [hopen] at hd
            refine ⟨(releaseFor c w).1 ++ code, by simp [hshunt, hok, Functor.map, Except.map],
              by simpa [parenDepth] using hd,
              by simp [hout, List.filterMap_append, List.filterMap_map, List.filterMap_cons, hnm], ?_⟩
            have hwsum : (w.map Waiting.weight).sum =
                (ds.map Connective.weight).sum + ((releaseFor c w).2.map Waiting.weight).sum := by
              conv => lhs; rw [hw]
              simp
            simp only [List.map_append, List.sum_append, hout, List.map_map, weight_comp_apply, hwt,
              hwsum, List.map_cons, List.sum_cons, Token.weight, Waiting.weight]
            omega
      | openParen =>
          have hshunt : shunt w (.openParen :: ts) = shunt (.paren :: w) ts := rfl
          rcases ih (.paren :: w) with ⟨he, hd⟩ | ⟨code, hok, hd, hnm, hwt⟩
          · exact .inl ⟨by rw [hshunt, he], by simpa [parenDepth, opens] using hd⟩
          · refine .inr ⟨code, by rw [hshunt, hok], by simpa [parenDepth, opens] using hd,
              by simp [List.filterMap_cons, hnm], ?_⟩
            simp [hwt, Token.weight, Waiting.weight]
      | closeParen =>
          cases hc : closeGroup w with
          | none =>
              have hopen := closeGroup_eq_none.mp hc
              exact .inl ⟨by simp [shunt, hc], by simp [parenDepth, hopen]⟩
          | some group =>
              obtain ⟨out, left⟩ := group
              obtain ⟨ds, rfl, rfl⟩ := closeGroup_eq_some hc
              have hopen : opens (ds.map Waiting.op ++ .paren :: left) = opens left + 1 := by
                rw [opens_op_append]
                simp [opens]
              have hshunt : shunt (ds.map Waiting.op ++ .paren :: left) (.closeParen :: ts) =
                  (ds.map Instr.apply ++ ·) <$> shunt left ts := by
                simp [shunt, hc]
              rw [hopen, hshunt]
              rcases ih left with ⟨he, hd⟩ | ⟨code, hok, hd, hnm, hwt⟩
              · exact .inl ⟨by simp [he, Functor.map, Except.map], by simpa [parenDepth] using hd⟩
              · refine .inr ⟨ds.map Instr.apply ++ code, by simp [hok, Functor.map, Except.map],
                  by simpa [parenDepth] using hd,
                  by simp [List.filterMap_append, List.filterMap_map, List.filterMap_cons, hnm], ?_⟩
                simp only [List.map_append, List.sum_append, List.map_map, weight_comp_apply, hwt,
                  weight_comp_op, List.map_cons, List.sum_cons, Token.weight, Waiting.weight]
                omega

end Postfix

end Entail
