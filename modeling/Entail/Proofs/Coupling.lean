import Entail.Proofs.Answers

/-! Runs from related memories: one relational lifting of inference, its laws for every step of
resolution proved once, for any relation on memories that the steps keep. -/

namespace Entail

open Infer

/-! ## Tables that hold the same facts -/

/-- Two tables that hold the same fact under each letter, their letters perhaps in another
order. -/
def FactTable.Alike (t₁ t₂ : FactTable) : Prop := t₁.keys.Perm t₂.keys ∧ t₁.get = t₂.get

/-- Two memories with alike tables and the same text written. -/
def Memory.Alike (m₁ m₂ : Memory) : Prop := m₁.facts.Alike m₂.facts ∧ m₁.written = m₂.written

namespace FactTable

theorem Alike.refl (t : FactTable) : t.Alike t := ⟨List.Perm.refl _, rfl⟩

theorem Alike.contains_eq {t₁ t₂ : FactTable} (h : t₁.Alike t₂) (c : Char) :
    t₁.contains c = t₂.contains c := by
  rw [FactTable.contains, FactTable.contains, Bool.eq_iff_iff, List.contains_iff_mem,
    List.contains_iff_mem, h.1.mem_iff]

theorem Alike.modify {t₁ t₂ : FactTable} (h : t₁.Alike t₂) (c : Char) (g : Fact → Fact) :
    (t₁.modify c g).Alike (t₂.modify c g) := by
  refine ⟨by simpa using h.1, funext fun d => ?_⟩
  simp only [get_modify, h.1.mem_iff, h.2]

theorem Alike.modifyAll {t₁ t₂ : FactTable} (h : t₁.Alike t₂) (g : Fact → Fact) :
    (t₁.modifyAll g).Alike (t₂.modifyAll g) := by
  refine ⟨by simpa using h.1, funext fun d => ?_⟩
  by_cases hd : d ∈ t₁.keys
  · rw [get_modifyAll _ _ _ hd, get_modifyAll _ _ _ (h.1.mem_iff.mp hd), h.2]
  · have hd₂ : d ∉ t₂.keys := fun h' => hd (h.1.mem_iff.mpr h')
    rw [get_of_not_mem (by simpa using hd), get_of_not_mem (by simpa using hd₂)]

/-- Listings show facts through the table's facts alone. -/
theorem Alike.showFact {t₁ t₂ : FactTable} (h : t₁.Alike t₂) : t₁.showFact = t₂.showFact := by
  funext c
  simp only [FactTable.showFact, h.2]

theorem Alike.showToken {t₁ t₂ : FactTable} (h : t₁.Alike t₂) : t₁.showToken = t₂.showToken := by
  funext tk
  cases tk <;> simp only [FactTable.showToken, h.showFact]

theorem Alike.showTokens {t₁ t₂ : FactTable} (h : t₁.Alike t₂) (ts : List Token) :
    t₁.showTokens ts = t₂.showTokens ts := by
  simp only [FactTable.showTokens, h.showToken]

theorem Alike.showPostfix {t₁ t₂ : FactTable} (h : t₁.Alike t₂) (code : Postfix) :
    t₁.showPostfix code = t₂.showPostfix code := by
  have hinstr : t₁.showInstr = t₂.showInstr := by
    funext i
    cases i <;> simp only [FactTable.showInstr, h.showFact]
  simp only [FactTable.showPostfix, hinstr]

theorem Alike.showRules {t₁ t₂ : FactTable} (h : t₁.Alike t₂) (rs : List Rule) :
    t₁.showRules rs = t₂.showRules rs := by
  have hrule : t₁.showRule = t₂.showRule := by
    funext r
    simp only [FactTable.showRule, h.showTokens]
  simp only [FactTable.showRules, hrule]

theorem Alike.display {t₁ t₂ : FactTable} (h : t₁.Alike t₂) (x : Operand) :
    x.display t₁ = x.display t₂ := by
  cases x <;> simp only [Operand.display, h.showFact]

end FactTable

/-! ## Related runs -/

/-- The outcomes of two runs, related by `R` on memories: the same value or the same fault, in
related memories; or the second stops with a fault of `S`, whatever the first does. -/
inductive Infer.Outcomes {α : Type} (R : Memory → Memory → Prop) (S : Fault → Prop) :
    EStateM.Result Fault Memory α → EStateM.Result Fault Memory α → Prop
  | ok {a : α} {m₁ m₂ : Memory} : R m₁ m₂ → Outcomes R S (.ok a m₁) (.ok a m₂)
  | error {e : Fault} {m₁ m₂ : Memory} : R m₁ m₂ → Outcomes R S (.error e m₁) (.error e m₂)
  | stop {r : EStateM.Result Fault Memory α} {e : Fault} {m₂ : Memory} :
      S e → Outcomes R S r (.error e m₂)

/-- What a run that ends normally leaves of the other: it ends normally too, with the same value,
or stops with a fault of `S`. -/
theorem Infer.Outcomes.of_ok {α : Type} {R : Memory → Memory → Prop} {S : Fault → Prop} {a : α}
    {m₁ : Memory} {r : EStateM.Result Fault Memory α} (h : Outcomes R S (.ok a m₁) r) :
    (∃ m₂, r = .ok a m₂ ∧ R m₁ m₂) ∨ ∃ e m₂, r = .error e m₂ ∧ S e := by
  cases h with
  | ok h => exact .inl ⟨_, rfl, h⟩
  | stop h => exact .inr ⟨_, _, rfl, h⟩

/-- Run from memories related by `R`, `x` and `y` end in outcomes related by `R` and `S`. -/
def Infer.Related {α : Type} (R : Memory → Memory → Prop) (S : Fault → Prop) (x y : Infer α) :
    Prop :=
  ∀ ⦃m₁ m₂ : Memory⦄, R m₁ m₂ → Outcomes R S (x.run m₁) (y.run m₂)

/-- A relation on memories that every step of inference keeps: related memories hold alike
tables, and writing a line, or changing a fact or every fact the same way, keeps them related. -/
structure Memory.Coupling (R : Memory → Memory → Prop) : Prop where
  alike : ∀ ⦃m₁ m₂ : Memory⦄, R m₁ m₂ → m₁.facts.Alike m₂.facts
  say : ∀ ⦃m₁ m₂ : Memory⦄ (line : String), R m₁ m₂ →
    R { m₁ with written := m₁.written ++ line ++ "\n" }
      { m₂ with written := m₂.written ++ line ++ "\n" }
  update : ∀ ⦃m₁ m₂ : Memory⦄ (c : Char) (g : Fact → Fact), R m₁ m₂ →
    R { m₁ with facts := m₁.facts.modify c g } { m₂ with facts := m₂.facts.modify c g }
  updateAll : ∀ ⦃m₁ m₂ : Memory⦄ (g : Fact → Fact), R m₁ m₂ →
    R { m₁ with facts := m₁.facts.modifyAll g } { m₂ with facts := m₂.facts.modifyAll g }

namespace Memory.Coupling

/-- Memories that are equal. -/
theorem eq_memory : Coupling (@Eq Memory) where
  alike _ _ h := h ▸ FactTable.Alike.refl _
  say _ _ _ h := h ▸ rfl
  update _ _ _ _ h := h ▸ rfl
  updateAll _ _ _ h := h ▸ rfl

/-- Memories whose tables hold the same facts, with the same text written. -/
theorem alike_memory : Coupling Memory.Alike where
  alike _ _ h := h.1
  say _ _ _ h := ⟨h.1, by rw [h.2]⟩
  update _ _ c g h := ⟨h.1.modify c g, h.2⟩
  updateAll _ _ g h := ⟨h.1.modifyAll g, h.2⟩

end Memory.Coupling

namespace Infer.Related

variable {R : Memory → Memory → Prop} {S : Fault → Prop} {α β : Type}

theorem pure (a : α) : Related R S (Pure.pure a) (Pure.pure a) := fun _ _ h => .ok h

theorem throw (e : Fault) : Related R S (throw e : Infer α) (throw e) := fun _ _ h => .error h

theorem bind {x y : Infer α} {f g : α → Infer β} (hx : Related R S x y)
    (hf : ∀ a, Related R S (f a) (g a)) : Related R S (x >>= f) (y >>= g) := by
  intro m₁ m₂ hm
  have hr := hx hm
  rw [EStateM.run_bind, EStateM.run_bind]
  generalize x.run m₁ = r₁ at hr ⊢
  generalize y.run m₂ = r₂ at hr ⊢
  cases hr with
  | ok h => exact hf _ h
  | error h => exact .error h
  | stop h => exact .stop h

/-- Run from equal memories, a computation ends as it ends. -/
theorem refl_eq (x : Infer α) : Related Eq S x x := by
  rintro m _ rfl
  cases x.run m with
  | ok a m' => exact .ok rfl
  | error e m' => exact .error rfl

theorem ite {c : Prop} [Decidable c] {x₁ x₂ y₁ y₂ : Infer α} (h₁ : Related R S x₁ y₁)
    (h₂ : Related R S x₂ y₂) : Related R S (if c then x₁ else x₂) (if c then y₁ else y₂) := by
  split
  · exact h₁
  · exact h₂

theorem lift (r : Except Fault α) : Related R S (Infer.lift r) (Infer.lift r) := by
  cases r with
  | ok a => exact pure a
  | error e => exact throw e

theorem foldlM {f g : β → α → Infer β} (h : ∀ b a, Related R S (f b a) (g b a)) (l : List α)
    (init : β) : Related R S (l.foldlM f init) (l.foldlM g init) := by
  induction l generalizing init with
  | nil => exact pure init
  | cons a l ih =>
      rw [List.foldlM_cons, List.foldlM_cons]
      exact bind (h init a) ih

theorem forM {f g : α → Infer PUnit} (h : ∀ a, Related R S (f a) (g a)) (l : List α) :
    Related R S (l.forM f) (l.forM g) := by
  induction l with
  | nil => exact pure _
  | cons a l ih => exact bind (h a) fun _ => ih

/-! ### The steps that touch the memory -/

variable (hR : Memory.Coupling R)
include hR

theorem say (line : String) : Related R S (Infer.say line) (Infer.say line) := by
  intro m₁ m₂ hm
  rw [run_say, run_say]
  exact .ok (hR.say line hm)

theorem update (c : Char) (g : Fact → Fact) :
    Related R S (Infer.update c g) (Infer.update c g) := by
  intro m₁ m₂ hm
  rw [run_update, run_update]
  exact .ok (hR.update c g hm)

theorem updateAll (g : Fact → Fact) : Related R S (Infer.updateAll g) (Infer.updateAll g) := by
  intro m₁ m₂ hm
  rw [run_updateAll, run_updateAll]
  exact .ok (hR.updateAll g hm)

/-- A computation that chooses what to do from the table, choosing alike on alike tables. -/
theorem table_bind {f g : FactTable → Infer α}
    (h : ∀ t₁ t₂, t₁.Alike t₂ → Related R S (f t₁) (g t₂)) :
    Related R S (table >>= f) (table >>= g) := by
  intro m₁ m₂ hm
  rw [run_table_bind, run_table_bind]
  exact h _ _ (hR.alike hm) hm

/-- A report that reads the table, written only when `verbose`, then the rest. -/
theorem report_then {y y' : PUnit → Infer α} (hy : ∀ u, Related R S (y u) (y' u)) (verbose : Bool)
    {line : FactTable → String} (hline : ∀ t₁ t₂, t₁.Alike t₂ → line t₁ = line t₂) :
    Related R S (if verbose = true then table >>= fun t => Infer.say (line t) >>= y else y ⟨⟩)
      (if verbose = true then table >>= fun t => Infer.say (line t) >>= y' else y' ⟨⟩) :=
  ite (table_bind hR fun t₁ t₂ ht => hline t₁ t₂ ht ▸ bind (say hR _) hy) (hy _)

/-- A fixed report, written only when `verbose`, then the rest. -/
theorem say_then {y y' : PUnit → Infer α} (hy : ∀ u, Related R S (y u) (y' u)) (verbose : Bool)
    (line : String) :
    Related R S (if verbose = true then Infer.say line >>= y else y ⟨⟩)
      (if verbose = true then Infer.say line >>= y' else y' ⟨⟩) :=
  ite (bind (say hR _) hy) (hy _)

/-- A fault that shows tokens as the table has them. -/
theorem throw_showTokens (ts : List Token) :
    Related R S
      (table >>= fun t => (MonadExcept.throw (.invalidConclusion (t.showTokens ts)) : Infer α))
      (table >>= fun t => MonadExcept.throw (.invalidConclusion (t.showTokens ts))) :=
  table_bind hR fun t₁ t₂ ht => by
    rw [ht.showTokens]
    exact throw _

/-- The stack machine runs related under resolvers that run related. -/
theorem postfix_run {ask₁ ask₂ : Char → Infer (Option Bool)}
    (hask : ∀ c, Related R S (ask₁ c) (ask₂ c)) (stack : List Operand) (code : Postfix) :
    Related R S (Postfix.run ask₁ stack code) (Postfix.run ask₂ stack code) := by
  induction code generalizing stack with
  | nil =>
      rcases stack with _ | ⟨x, _ | ⟨y, below⟩⟩
      · rw [Postfix.run.eq_2 _ _ (by simp), Postfix.run.eq_2 _ _ (by simp)]
        exact throw _
      · rw [Postfix.run.eq_1, Postfix.run.eq_1]
        exact pure _
      · rw [Postfix.run.eq_2 _ _ (by simp), Postfix.run.eq_2 _ _ (by simp)]
        exact throw _
  | cons i rest ih =>
      cases i with
      | push c =>
          rw [Postfix.run.eq_3, Postfix.run.eq_3]
          refine bind (hask c) fun r => ?_
          cases r with
          | some b => exact ih _
          | none => exact bind (update hR _ _) fun _ => ih _
      | apply c =>
          cases stack with
          | nil =>
              rw [Postfix.run.eq_4, Postfix.run.eq_4]
              exact throw _
          | cons x below =>
              cases hu : c.isUnary with
              | true =>
                  rw [Postfix.run_unary ask₁ hu, Postfix.run_unary ask₂ hu]
                  exact ih _
              | false =>
                  cases below with
                  | nil =>
                      rw [Postfix.run.eq_5, Postfix.run.eq_5]
                      simp only [hu, Bool.false_eq_true, if_false]
                      -- the fault shows the operand as the table has it
                      refine table_bind hR fun t₁ t₂ ht => ?_
                      rw [ht.display]
                      exact throw _
                  | cons y below =>
                      rw [Postfix.run_binary ask₁ hu, Postfix.run_binary ask₂ hu]
                      exact ih _

/-- Reading a conclusion runs related from related memories. -/
theorem conclude (inSession verbose : Bool) (conclusion : List Token) (res : Bool) :
    Related R S (Infer.conclude inSession verbose conclusion res)
      (Infer.conclude inSession verbose conclusion res) := by
  unfold Infer.conclude
  refine report_then hR (fun _ => ?_) verbose fun t₁ t₂ ht => by rw [ht.showTokens]
  beta_reduce
  -- the shapes of a conclusion: empty, one token, two, three, or more
  rcases conclusion with _ | ⟨t₁, _ | ⟨t₂, _ | ⟨t₃, _ | ⟨t₄, rest⟩⟩⟩⟩
  · exact throw_showTokens hR _
  · cases t₁ <;> exact pure _
  · rcases t₁ with _ | c | _ | _
    · exact throw_showTokens hR _
    · cases c
      · exact pure _
      all_goals exact throw_showTokens hR _
    · exact throw _
    · exact throw _
  · -- three tokens: a session refuses them, otherwise the middle token decides
    cases t₁ <;> refine ite (throw _) ?_ <;> rcases t₂ with _ | c | _ | _ <;> (try cases c) <;>
      first | exact pure _ | exact throw _
  · cases t₁ <;> exact throw_showTokens hR _

section Rules

variable {rules₁ rules₂ : List Rule}
  (hrules : ∀ c, rules₁.filter (fun r => r.conclusion.contains (.fact c)) =
    rules₂.filter (fun r => r.conclusion.contains (.fact c)))
  {inSession₁ inSession₂ : Bool}
  (hconclude : ∀ verbose conclusion res,
    Related R S (Infer.conclude inSession₁ verbose conclusion res)
      (Infer.conclude inSession₂ verbose conclusion res))
include hrules hconclude

/-- Resolution runs related from related memories, with the unvisited letters in any order, under
rule lists that hold the same rules concluding each letter, in the same order, and conclusions
read related. The induction follows resolution down the unvisited letters. -/
theorem resolve (verbose : Bool) {U₁ U₂ : List Char} (hU : U₁.Perm U₂) (c : Char) :
    Related R S (Infer.resolve inSession₁ rules₁ verbose U₁ c)
      (Infer.resolve inSession₂ rules₂ verbose U₂ c) := by
  by_cases hc : c ∈ U₁
  · have hc₂ : c ∈ U₂ := hU.mem_iff.mp hc
    rw [Infer.resolve, Infer.resolve, dif_pos hc, dif_pos hc₂]
    refine report_then hR (fun _ => ?_) verbose fun t₁ t₂ ht => by rw [ht.showFact]
    refine table_bind hR fun t₁ t₂ ht => ?_
    -- both read the same fact, and try the same rules in the same order
    rw [ht.2, hrules c]
    refine ite (pure _) ?_
    refine report_then hR (fun _ => ?_) verbose fun t₁ t₂ ht => by rw [ht.showRules]
    refine foldlM (fun acc r => ite (bind (say hR _) fun _ => pure _) ?_) _ _
    refine bind (lift _) fun code => ?_
    refine report_then hR (fun _ => ?_) verbose fun t₁ t₂ ht => by rw [ht.showPostfix]
    refine bind (postfix_run hR
      (fun d => resolve false (hU.erase c) d) [] code) fun v => ?_
    refine say_then hR (fun _ => ?_) verbose _
    beta_reduce
    cases r.arrow with
    | implies =>
        exact say_then hR (fun _ => ite (hconclude _ _ _)
          (say_then hR (fun _ => pure _) verbose _)) verbose _
    | iff => exact say_then hR (fun _ => hconclude _ _ _) verbose _
  · have hc₂ : c ∉ U₂ := fun h => hc (hU.mem_iff.mpr h)
    rw [Infer.resolve, Infer.resolve, dif_neg hc, dif_neg hc₂]
    exact pure _
termination_by U₁.length
decreasing_by exact length_erase_lt_of_mem hc

theorem answer (verbose : Bool) (q : Char) :
    Related R S (Infer.answer inSession₁ verbose rules₁ q)
      (Infer.answer inSession₂ verbose rules₂ q) := by
  unfold Infer.answer
  refine table_bind hR fun t₁ t₂ ht => ?_
  rw [ht.contains_eq]
  exact ite (bind (resolve hR hrules hconclude verbose ht.1 q) fun _ => say hR _) (say hR _)

theorem answerAll (verbose : Bool) (qs : List Char) :
    Related R S (Infer.answerAll inSession₁ verbose rules₁ qs)
      (Infer.answerAll inSession₂ verbose rules₂ qs) :=
  forM (answer hR hrules hconclude verbose) qs

end Rules

theorem assume (I : List Char) : Related R S (Infer.assume I) (Infer.assume I) := by
  unfold Infer.assume
  refine bind (updateAll hR _) fun _ => bind (forM (fun c => table_bind hR fun t₁ t₂ ht => ?_) I)
    fun _ => updateAll hR _
  rw [ht.contains_eq]
  exact ite (update hR _ _) (say hR _)

end Infer.Related

end Entail
