import Entail.Proofs.Tables
import Entail.Proofs.Semantics

/-! Resolving a query of a stratified rule book of implications gives the query's value in the
perfect model of its clauses. -/

namespace Entail

open Infer

/-! ## Rule books as programs -/

theorem Token.mem_names {ts : List Token} {c : Char} :
    c ∈ ts.filterMap Token.name? ↔ Token.fact c ∈ ts := by
  rw [List.mem_filterMap]
  constructor
  · rintro ⟨t, ht, hn⟩
    cases t <;> simp_all [Token.name?]
  · exact fun h => ⟨_, h, rfl⟩

namespace Rule

/-- The rules whose resolution is a logic program: implications whose premise reads as a formula
with no double negation, concluding one letter or a conjunction of two. -/
def InFragment (r : Rule) : Prop :=
  r.arrow = .implies ∧ (∃ φ, Formula.Reads 0 r.premise φ) ∧ NoDoubleNeg r.premise ∧
    ((∃ x, r.conclusion = [.fact x]) ∨ ∃ x y, r.conclusion = [.fact x, .op .and, .fact y])

/-- The clauses of a list of rules: each rule concludes each letter of its conclusion from its
premise, unless the premise mentions that letter. -/
def clauses (rules : List Rule) : Program := fun h φ =>
  ∃ r ∈ rules, Formula.Reads 0 r.premise φ ∧ h ∈ r.heads ∧ h ∉ φ.letters

/-- The program a list of rules reads as when every rule is kept: each rule concludes each letter of
its conclusion from its premise. -/
def program (rules : List Rule) : Program := fun h φ =>
  ∃ r ∈ rules, Formula.Reads 0 r.premise φ ∧ h ∈ r.heads

theorem mem_letters_of_clause {rules : List Rule} {h d : Char} {φ : Formula}
    (hc : clauses rules h φ) (hd : d ∈ φ.letters) : ∃ r ∈ rules, d ∈ r.letters := by
  obtain ⟨r, hr, hφ, -, -⟩ := hc
  exact ⟨r, hr, mem_letters.mpr (.inl (hφ.names ▸ hd))⟩

theorem mem_heads_of_clause {rules : List Rule} {h : Char} {φ : Formula}
    (hc : clauses rules h φ) : h ∈ rules.flatMap heads := by
  obtain ⟨r, hr, -, hh, -⟩ := hc
  exact List.mem_flatMap.mpr ⟨r, hr, hh⟩

/-- Every letter that a letter of the table depends on is in the table. -/
theorem reaches_mem {rules : List Rule} {K : List Char} (hK : ∀ r ∈ rules, ∀ d ∈ r.letters, d ∈ K)
    {d a : Char} (hd : d ∈ K) (h : (clauses rules).Reaches d a) : a ∈ K := by
  induction h with
  | refl => exact hd
  | tail _ hdep _ =>
      obtain ⟨φ, hc, ha⟩ := hdep
      obtain ⟨r, hr, har⟩ := mem_letters_of_clause hc ha
      exact hK r hr _ har

end Rule

/-- A premise without negation or exclusive or reads as a formula with no letter read in the
model. -/
theorem Formula.Reads.negLetters_eq_nil {p : Nat} {ts : List Token} {φ : Formula}
    (h : Formula.Reads p ts φ) (hnot : Token.op .not ∉ ts) (hxor : Token.op .xor ∉ ts) :
    φ.negLetters = [] := by
  induction h with
  | atom _ => rfl
  | paren _ ih =>
      exact ih (fun h => hnot (by simp [h])) fun h => hxor (by simp [h])
  | neg _ _ => exact absurd List.mem_cons_self hnot
  | bin o _ _ _ ihl ihr =>
      have hl := ihl (fun h => hnot (by simp [h])) fun h => hxor (by simp [h])
      have hr := ihr (fun h => hnot (by simp [h])) fun h => hxor (by simp [h])
      cases o with
      | conj => simp [Formula.negLetters, hl, hr]
      | disj => simp [Formula.negLetters, hl, hr]
      | xor => exact absurd (by simp [BinOp.connective]) hxor

/-- Rules without negation or exclusive or in their premises are stratified. -/
theorem Rule.stratified_of_positive {rules : List Rule}
    (h : ∀ r ∈ rules, Token.op .not ∉ r.premise ∧ Token.op .xor ∉ r.premise) :
    (Rule.clauses rules).Stratified := by
  rintro x y ⟨φ, ⟨r, hr, hφ, -, -⟩, hy⟩
  rw [hφ.negLetters_eq_nil (h r hr).1 (h r hr).2] at hy
  exact absurd hy List.not_mem_nil

/-- The view once the initial facts `I` are taken into a table with letters `K`, of which the rules
conclude `H`: initial letters true, other unconcluded letters false, concluded letters unsettled. -/
def View.initial (K I H : List Char) : View where
  keys := K
  seen d := if d ∈ K then
      (if d ∈ I then some (some true) else if d ∈ H then none else some (some false))
    else some none

/-! ## Steps that succeed -/

/-- What resolution writes for `k` rules it skips. -/
def skipReports (k : Nat) : String := String.join (List.replicate k "Recursion attempted\n")

theorem skipReports_add (a b : Nat) : skipReports (a + b) = skipReports a ++ skipReports b := by
  rw [skipReports, List.replicate_add, String.join_append]
  rfl

/-- From any memory showing `w`, `x` succeeds with a value satisfying `Q`, keeps the view and writes
only skip reports. Where `Steady` and `Infer.Related` speak of runs that end normally, this says
that the run does. -/
def Succeeds {α : Type} (w : View) (x : Infer α) (Q : α → Prop) : Prop :=
  ∀ m : Memory, m.view = w → ∃ a m', x.run m = .ok a m' ∧ m'.view = w ∧
    (∃ k, m'.written = m.written ++ skipReports k) ∧ Q a

namespace Succeeds

variable {w : View} {α β γ : Type} {x : Infer α} {Q Q' : α → Prop}

theorem mono (h : Succeeds w x Q) (hQ : ∀ a, Q a → Q' a) : Succeeds w x Q' := by
  intro m hm
  obtain ⟨a, m', hr, hv, hk, hq⟩ := h m hm
  exact ⟨a, m', hr, hv, hk, hQ a hq⟩

theorem pure {a : α} (h : Q a) : Succeeds w (Pure.pure a) Q :=
  fun m hm => ⟨a, m, rfl, hm, ⟨0, by simp [skipReports]⟩, h⟩

theorem bind {f : α → Infer β} {R : β → Prop} (hx : Succeeds w x Q)
    (hf : ∀ a, Q a → Succeeds w (f a) R) : Succeeds w (x >>= f) R := by
  intro m hm
  obtain ⟨a, m₁, hr₁, hv₁, ⟨k₁, hk₁⟩, hq⟩ := hx m hm
  obtain ⟨b, m₂, hr₂, hv₂, ⟨k₂, hk₂⟩, hR⟩ := hf a hq m₁ hv₁
  refine ⟨b, m₂, by rw [EStateM.run_bind, hr₁]; exact hr₂, hv₂, ⟨k₁ + k₂, ?_⟩, hR⟩
  rw [hk₂, hk₁, skipReports_add, String.append_assoc]

theorem table_bind {f : FactTable → Infer α} (h : ∀ t, t.view = w → Succeeds w (f t) Q) :
    Succeeds w (table >>= f) Q :=
  fun m hm => h m.facts hm m hm

theorem skip : Succeeds w (say "Recursion attempted") fun _ => True :=
  fun m hm => ⟨(), _, rfl, hm, ⟨1, by simp [skipReports, String.append_assoc]⟩, trivial⟩

theorem update_value {c : Char} {b : Bool} (hc : c ∉ w.keys ∨ w.seen c = none) :
    Succeeds w (update c fun f => { f with value := some b }) fun _ => True := by
  intro m hm
  refine ⟨(), _, rfl, ?_, ⟨0, by simp [skipReports]⟩, trivial⟩
  rw [← hm] at hc ⊢
  exact FactTable.view_modify_value m.facts c b hc

/-- A fold whose steps each succeed, turning the accumulated value true exactly when `G` holds of
the element or it was true already, ends true exactly when `G` holds of some element. -/
theorem foldlM {f : Option Bool → γ → Infer (Option Bool)} {G : γ → Prop} {l : List γ}
    {init : Option Bool}
    (h : ∀ acc, ∀ a ∈ l, Succeeds w (f acc a) fun res =>
      (res.getD false = true ↔ acc.getD false = true ∨ G a)) :
    Succeeds w (l.foldlM f init) fun res =>
      (res.getD false = true ↔ init.getD false = true ∨ ∃ a ∈ l, G a) := by
  induction l generalizing init with
  | nil => exact pure (by simp)
  | cons a l ih =>
      rw [List.foldlM_cons]
      refine (h init a List.mem_cons_self).bind fun acc hacc => ?_
      refine (ih fun acc b hb => h acc b (List.mem_cons_of_mem _ hb)).mono fun res hres => ?_
      rw [hres, hacc]
      simp only [List.mem_cons, exists_eq_or_imp, or_assoc]

end Succeeds

/-! ## Evaluating a premise and reading a conclusion -/

section Premise

variable {w : View} {R : Char → Infer (Option Bool)} {ν : Char → Bool}

/-- When each letter resolves successfully to the value `ν` gives it, reading as false a letter
that resolves to nothing, the operand of a formula is its value. -/
theorem Formula.operand_succeeds (f : Formula)
    (hR : ∀ d ∈ f.letters, Succeeds w (R d) fun r =>
      r.getD false = ν d ∧ (r = none → d ∉ w.keys ∨ w.seen d = none)) :
    Succeeds w (f.operand R) fun x => x.truth = f.eval ν := by
  induction f with
  | atom d =>
      rw [Formula.operand]
      refine (hR d (by simp [Formula.letters])).bind fun r hr => ?_
      obtain ⟨hv, hnone⟩ := hr
      cases r with
      | some b => exact Succeeds.pure hv
      | none => exact (Succeeds.update_value (hnone rfl)).bind fun _ _ => Succeeds.pure hv
  | neg a ih =>
      rw [Formula.operand]
      refine (ih fun d hd => hR d hd).bind fun x hx => Succeeds.pure ?_
      rw [Formula.eval, ← hx]
      rfl
  | bin o a b iha ihb =>
      rw [Formula.operand]
      refine (iha fun d hd => hR d (by simp [Formula.letters, hd])).bind fun x hx => ?_
      refine (ihb fun d hd => hR d (by simp [Formula.letters, hd])).bind fun y hy => ?_
      refine Succeeds.pure ?_
      rw [Formula.eval, ← hx, ← hy]
      rfl

theorem Formula.run_code_succeeds (f : Formula)
    (hR : ∀ d ∈ f.letters, Succeeds w (R d) fun r =>
      r.getD false = ν d ∧ (r = none → d ∉ w.keys ∨ w.seen d = none)) :
    Succeeds w (Postfix.run R [] f.code) fun v => v = f.eval ν := by
  rw [← List.append_nil f.code, Postfix.run_code]
  refine (f.operand_succeeds hR).bind fun x hx => ?_
  rw [Postfix.run.eq_1]
  exact Succeeds.pure hx

end Premise

/-- A rule of the fragment that fires settles each letter of its conclusion true. -/
theorem Infer.conclude_of_fragment {r : Rule} (hr : r.InFragment) :
    conclude false false r.conclusion true = pure (some true) := by
  obtain ⟨-, -, -, ⟨x, hx⟩ | ⟨x, y, hxy⟩⟩ := hr
  · rw [hx]
    rfl
  · rw [hxy]
    rfl

@[simp] theorem Infer.lift_ok {α : Type} (a : α) : lift (.ok a : Except Fault α) = pure a := rfl

/-- Formulas with the same program have the same value. -/
theorem Formula.eval_eq_of_code_eq {φ ψ : Formula} (h : φ.code = ψ.code) (ν : Char → Bool) :
    φ.eval ν = ψ.eval ν := by
  -- run both programs with letters that resolve to their values and touch nothing
  let R : Char → Infer (Option Bool) := fun d => pure (some (ν d))
  have hrun : ∀ f : Formula, (Postfix.run R [] f.code).run ⟨.empty, ""⟩ =
      .ok (f.eval ν) ⟨.empty, ""⟩ := by
    intro f
    rw [← List.append_nil f.code, Postfix.run_code, EStateM.run_bind,
      Formula.operand_of_values (R := R) fun _ _ => rfl]
    rfl
  have hφ := hrun φ
  rw [h, hrun ψ] at hφ
  exact (EStateM.Result.ok.inj hφ).1.symm

theorem Formula.Reads.eval_eq {ts : List Token} {φ ψ : Formula} (hφ : Reads 0 ts φ)
    (hψ : Reads 0 ts ψ) (hn : NoDoubleNeg ts) (ν : Char → Bool) : φ.eval ν = ψ.eval ν := by
  have h := (Postfix.ofTokens_reads hφ hn).symm.trans (Postfix.ofTokens_reads hψ hn)
  exact Formula.eval_eq_of_code_eq (Except.ok.inj h) ν

/-! ## What resolution derives -/

namespace Program

/-- What resolution with the letters `U` unvisited can derive: the letters that the clauses for
letters of `U` derive from the initial letters of `U`, negations read in `M`. -/
def derivedOn (P : Program) (I : List Char) (M : Char → Bool) (U : List Char) : Set Char :=
  (P.within {a | a ∈ U}).derived ({a | a ∈ I} ∩ {a | a ∈ U}) M

variable {P : Program} {I U : List Char} {M : Char → Bool} {c : Char}

theorem mem_of_mem_derivedOn (h : c ∈ P.derivedOn I M U) : c ∈ U :=
  derived_within_subset h

theorem mem_derivedOn_of_initial (hc : c ∈ U) (hI : c ∈ I) : c ∈ P.derivedOn I M U :=
  mem_derived.mpr (.inl ⟨hI, hc⟩)

theorem derivedOn_iff_derived (hA : ∀ a, P.Reaches c a → a ∈ U) :
    c ∈ P.derivedOn I M U ↔ c ∈ P.derived {a | a ∈ I} M :=
  derived_within_iff hA

/-- A letter that is not initial is derived with `U` unvisited when one of its clauses holds of
what is derived with the letter visited as well. -/
theorem mem_derivedOn_iff (hnd : U.Nodup) (hc : c ∈ U) (hI : c ∉ I) :
    c ∈ P.derivedOn I M U ↔ ∃ φ, P c φ ∧ φ.Holds (P.derivedOn I M (U.erase c)) M := by
  have hset : {a | a ∈ U.erase c} = {a | a ∈ U} \ {c} := by
    ext a
    simp [hnd.mem_erase_iff, and_comm]
  rw [derivedOn, mem_derived_within_iff, derivedOn, hset]
  simp only [Set.mem_ofPred_eq, hc, hI, true_and, false_or]

theorem not_mem_derivedOn (hI : c ∉ I) (hP : ∀ φ, ¬ P c φ) : c ∉ P.derivedOn I M U := by
  rw [derivedOn, mem_derived_within_iff]
  rintro ⟨-, hI' | ⟨φ, hφ, -⟩⟩
  · exact hI hI'
  · exact hP φ hφ

/-- Leaving out a letter on which `d` depends keeps every left-out letter one `d` depends on. -/
theorem reaches_of_erase {K : List Char} {d : Char} (hdep : P.Dep c d)
    (hpath : ∀ a ∈ K, a ∉ U → P.Reaches a c) : ∀ a ∈ K, a ∉ U.erase c → P.Reaches a d := by
  intro a ha hau
  by_cases hac : a = c
  · subst hac
    exact .single hdep
  · exact (hpath a ha fun h => hau ((List.mem_erase_of_ne hac).mpr h)).tail hdep

end Program

namespace Rule

/-- A rule for `c` fires when its premise does not mention `c` and holds, letters read in `ν`. -/
def Fires (c : Char) (ν : Char → Bool) (r : Rule) : Prop :=
  Token.fact c ∉ r.premise ∧ ∃ φ, Formula.Reads 0 r.premise φ ∧ φ.eval ν = true

theorem clause_of_relevant {rules : List Rule} {r : Rule} {c : Char} {φ : Formula}
    (hr : r ∈ rules.filter fun r => r.conclusion.contains (.fact c))
    (hφ : Formula.Reads 0 r.premise φ) (hc : Token.fact c ∉ r.premise) : clauses rules c φ := by
  rw [List.mem_filter, List.contains_iff_mem] at hr
  refine ⟨r, hr.1, hφ, Token.mem_names.mpr hr.2, ?_⟩
  rw [← hφ.names, Token.mem_names]
  exact hc

theorem exists_fires_iff {rules : List Rule} {c : Char} {ν : Char → Bool} :
    (∃ r ∈ rules.filter (fun r => r.conclusion.contains (.fact c)), r.Fires c ν) ↔
      ∃ φ, clauses rules c φ ∧ φ.eval ν = true := by
  constructor
  · rintro ⟨r, hr, hc, φ, hφ, hv⟩
    exact ⟨φ, clause_of_relevant hr hφ hc, hv⟩
  · rintro ⟨φ, ⟨r, hr, hφ, hcr, hcφ⟩, hv⟩
    refine ⟨r, List.mem_filter.mpr ⟨hr, List.contains_iff_mem.mpr (Token.mem_names.mp hcr)⟩,
      fun h => hcφ ?_, φ, hφ, hv⟩
    rw [← hφ.names]
    exact Token.mem_names.mpr h

end Rule

/-! ## Resolution from the initial view -/

/-- The model resolution computes from a memory: a letter of the table takes the value that
resolving it with every letter unvisited gives, any other letter is true when it is initial. -/
def Infer.computedModel (rules : List Rule) (I : List Char) (m : Memory) (d : Char) : Bool :=
  if d ∈ m.facts.keys then
    match (resolve false rules false m.facts.keys d).run m with
    | .ok r _ => r.getD false
    | .error _ _ => false
  else decide (d ∈ I)

section FromInitial

variable {rules : List Rule} {I : List Char} {m₀ : Memory}

theorem computedModel_of_succeeds {d : Char} {S : Set Char} (hd : d ∈ m₀.facts.keys)
    (h : Succeeds m₀.view (resolve false rules false m₀.facts.keys d) fun r =>
      (r.getD false = true ↔ d ∈ S)) :
    computedModel rules I m₀ d = true ↔ d ∈ S := by
  obtain ⟨r, m', hr, -, -, hq⟩ := h m₀ rfl
  rw [computedModel, if_pos hd, hr]
  exact hq

/-- An atomic fact resolves to the value the initial facts gave it: true exactly when it is
initial, and otherwise it is concluded by no rule. -/
theorem resolve_atomic_spec {M : Char → Bool} {U : List Char} {c : Char}
    (hm₀ : m₀.view = View.initial m₀.facts.keys I (rules.flatMap Rule.heads))
    (hc : c ∈ U) (hcK : c ∈ m₀.facts.keys) {f : Fact} (hf : f.seen = m₀.view.seen c)
    (ha : f.atomic = true) :
    (f.value.getD false = true ↔ c ∈ (Rule.clauses rules).derivedOn I M U) ∧
      (f.value = none → c ∉ m₀.view.keys ∨ m₀.view.seen c = none) := by
  have hs : m₀.view.seen c = some f.value := by
    rw [← hf]
    simp [Fact.seen, ha]
  rw [hm₀] at hs
  simp only [View.initial, if_pos hcK] at hs
  by_cases hI : c ∈ I
  · rw [if_pos hI] at hs
    have hv : f.value = some true := (Option.some.inj hs).symm
    simp [hv, Program.mem_derivedOn_of_initial hc hI]
  · rw [if_neg hI] at hs
    by_cases hH : c ∈ rules.flatMap Rule.heads
    · rw [if_pos hH] at hs
      cases hs
    · rw [if_neg hH] at hs
      have hv : f.value = some false := (Option.some.inj hs).symm
      have hnot := Program.not_mem_derivedOn (U := U) (M := M) hI fun φ hφ =>
        hH (Rule.mem_heads_of_clause hφ)
      simp [hv, hnot]

open Classical in
/-- A letter read under a negation in a clause for `c` is read alike by resolution below `c` and by
the model: by stratification everything it depends on is still unvisited. -/
theorem negLetter_value {M : Char → Bool} {K U : List Char} {c d : Char} {φ : Formula}
    (hstrat : (Rule.clauses rules).Stratified) (hK : ∀ r ∈ rules, ∀ d ∈ r.letters, d ∈ K)
    (hpath : ∀ a ∈ K, a ∉ U → (Rule.clauses rules).Reaches a c)
    (hP : Rule.clauses rules c φ) (hd : d ∈ φ.negLetters)
    (hM : M d = true ↔ d ∈ (Rule.clauses rules).derivedOn I M K) :
    decide (d ∈ (Rule.clauses rules).derivedOn I M (U.erase c)) = M d := by
  obtain ⟨r, hr, hdr⟩ := Rule.mem_letters_of_clause hP (Formula.mem_letters_of_mem_negLetters hd)
  have hK' : ∀ a, (Rule.clauses rules).Reaches d a → a ∈ K :=
    fun a ha => Rule.reaches_mem hK (hK r hr d hdr) ha
  have hU' : ∀ a, (Rule.clauses rules).Reaches d a → a ∈ U.erase c := by
    intro a ha
    by_contra hau
    -- a letter left out depends on `c`, so `d` would depend on `c`
    have hac : (Rule.clauses rules).Reaches a c := by
      by_cases h : a = c
      · subst h
        exact .refl
      · exact hpath a (hK' a ha) fun hu => hau ((List.mem_erase_of_ne h).mpr hu)
    exact hstrat c d ⟨φ, hP, hd⟩ (ha.trans hac)
  rw [Bool.eq_iff_iff, decide_eq_true_iff, hM, Program.derivedOn_iff_derived hU',
    Program.derivedOn_iff_derived hK']

theorem lex_lt_of_le_of_lt {a b x y : ℕ} (h₁ : a ≤ b) (h₂ : x < y) :
    Prod.Lex (· < ·) (· < ·) (a, x) (b, y) := by
  rcases h₁.lt_or_eq with h | rfl
  · exact .left _ _ h
  · exact .right _ h₂

/-- What resolution from the memory `m₀` relies on: rules of the fragment whose letters are all in
the table, the view the initial facts `I` leave, stratified clauses, and levels `ℓ` that no
dependency rises along and every negation descends. -/
structure Prepared (rules : List Rule) (I : List Char) (m₀ : Memory) (ℓ : Char → ℕ) : Prop where
  fragment : ∀ r ∈ rules, r.InFragment
  letters_mem : ∀ r ∈ rules, ∀ d ∈ r.letters, d ∈ m₀.facts.keys
  view_eq : m₀.view = View.initial m₀.facts.keys I (rules.flatMap Rule.heads)
  stratified : (Rule.clauses rules).Stratified
  level_dep : ∀ x y, (Rule.clauses rules).Dep x y → ℓ y ≤ ℓ x
  level_negDep : ∀ x y, (Rule.clauses rules).NegDep x y → ℓ y < ℓ x

open Classical in
/-- Resolving `c` with the letters `U` unvisited, from the view the initial facts leave. While the
unvisited letters include every atomic one and every letter left out depends on `c`, resolution
succeeds, writes only skip reports, and makes `c` true exactly when it is derived within `U`. The
recursion follows resolution down the letters of a premise, and the model down a negation, whose
letters stratification puts on a lower level. -/
theorem resolve_succeeds {ℓ : Char → ℕ} (hp : Prepared rules I m₀ ℓ)
    (U : List Char) (c : Char) (hnd : U.Nodup) (hUK : ∀ a ∈ U, a ∈ m₀.facts.keys)
    (hset : Settled U m₀.view)
    (hpath : ∀ a ∈ m₀.facts.keys, a ∉ U → (Rule.clauses rules).Reaches a c) :
    Succeeds m₀.view (resolve false rules false U c) fun r =>
      (r.getD false = true ↔ c ∈ (Rule.clauses rules).derivedOn I (computedModel rules I m₀) U) ∧
      (r = none → c ∉ m₀.view.keys ∨ m₀.view.seen c = none) := by
  by_cases hc : c ∈ U
  · rw [resolve, dif_pos hc]
    simp only [Bool.false_eq_true, if_false]
    refine Succeeds.table_bind fun t ht => ?_
    have hseen : (t.get c).seen = m₀.view.seen c := by
      rw [← ht]
      rfl
    cases ha : (t.get c).atomic with
    | true =>
        rw [if_pos rfl]
        exact Succeeds.pure (resolve_atomic_spec hp.view_eq hc (hUK c hc) hseen ha)
    | false =>
        rw [if_neg Bool.false_ne_true]
        have hnone : m₀.view.seen c = none := hseen ▸ Fact.seen_eq_none ha
        have hI : c ∉ I := by
          intro hI
          rw [hp.view_eq] at hnone
          simp [View.initial, hUK c hc, hI] at hnone
        -- the letters of a clause for `c` are resolved with `c` visited
        have hrec : ∀ φ, Rule.clauses rules c φ → ∀ d ∈ φ.letters,
            Succeeds m₀.view (resolve false rules false (U.erase c) d) fun res =>
              res.getD false = decide (d ∈ (Rule.clauses rules).derivedOn I
                (computedModel rules I m₀) (U.erase c)) ∧
              (res = none → d ∉ m₀.view.keys ∨ m₀.view.seen d = none) := by
          intro φ hP d hd
          have hlt : ℓ d ≤ ℓ c := hp.level_dep c d ⟨φ, hP, hd⟩
          refine (resolve_succeeds hp (U.erase c) d (hnd.erase c)
            (fun a ha => hUK a (List.mem_of_mem_erase ha)) (hset.erase hnone)
            (Program.reaches_of_erase ⟨φ, hP, hd⟩ hpath)).mono fun res h => ⟨?_, h.2⟩
          exact Bool.eq_iff_iff.mpr (h.1.trans decide_eq_true_iff.symm)
        -- a letter under a negation is read in the computed model, which agrees with it
        have hneg : ∀ φ, Rule.clauses rules c φ → ∀ d ∈ φ.negLetters,
            decide (d ∈ (Rule.clauses rules).derivedOn I (computedModel rules I m₀) (U.erase c)) =
              computedModel rules I m₀ d := by
          intro φ hP d hd
          have hlt : ℓ d < ℓ c := hp.level_negDep c d ⟨φ, hP, hd⟩
          obtain ⟨r, hr, hdr⟩ :=
            Rule.mem_letters_of_clause hP (Formula.mem_letters_of_mem_negLetters hd)
          have hsetK : Settled m₀.facts.keys m₀.view :=
            fun a ha => ⟨(hset a ha).1, fun h => hUK a ((hset a ha).2 h)⟩
          refine negLetter_value hp.stratified hp.letters_mem hpath hP hd
            (computedModel_of_succeeds (hp.letters_mem r hr d hdr) ?_)
          exact (resolve_succeeds hp m₀.facts.keys d m₀.facts.nodup
            (fun _ h => h) hsetK (fun _ ha hna => absurd ha hna)).mono fun _ h => h.1
        refine (Succeeds.foldlM (G := Rule.Fires c fun d => decide (d ∈ (Rule.clauses rules).derivedOn
          I (computedModel rules I m₀) (U.erase c))) fun acc r hr => ?_).mono
          fun res hres => ⟨?_, fun _ => .inr hnone⟩
        · -- one rule for `c`: skipped when its premise mentions `c`, and otherwise evaluated
          obtain ⟨harrow, ⟨φ, hφ⟩, hn, -⟩ := hp.fragment r (List.mem_of_mem_filter hr)
          split
          · rename_i hcon
            refine Succeeds.skip.bind fun _ _ => Succeeds.pure ⟨.inl, fun h => h.resolve_right ?_⟩
            exact fun hf => hf.1 (List.contains_iff_mem.mp hcon)
          · rename_i hcon
            have hcφ : Token.fact c ∉ r.premise := fun h => hcon (List.contains_iff_mem.mpr h)
            have hP := Rule.clause_of_relevant hr hφ hcφ
            rw [Postfix.ofTokens_reads hφ hn, lift_ok, pure_bind]
            refine (φ.run_code_succeeds (hrec φ hP)).bind fun v hv => ?_
            subst hv
            simp only [harrow]
            cases he : φ.eval _ with
            | true =>
                rw [if_pos rfl, conclude_of_fragment (hp.fragment r (List.mem_of_mem_filter hr))]
                exact Succeeds.pure (iff_of_true rfl (.inr ⟨hcφ, φ, hφ, he⟩))
            | false =>
                rw [if_neg Bool.false_ne_true]
                refine Succeeds.pure ⟨.inl, fun h => h.resolve_right ?_⟩
                rintro ⟨-, ψ, hψ, hψv⟩
                rw [hφ.eval_eq hψ hn, hψv] at he
                exact Bool.noConfusion he
        · -- the fold's value: some clause for `c` holds of what is derived below it
          rw [hres, Option.getD_none, Rule.exists_fires_iff, Program.mem_derivedOn_iff hnd hc hI]
          simp only [Bool.false_eq_true, false_or]
          refine exists_congr fun φ => and_congr_right fun hP => ?_
          exact (Formula.holds_iff_eval (fun d _ => decide_eq_true_iff.symm) (hneg φ hP)).symm
  · rw [resolve, dif_neg hc]
    refine Succeeds.pure ⟨?_, fun _ => ?_⟩
    · -- a visited letter resolves to nothing, and nothing within `U` derives it
      simp only [Option.getD_none, Bool.false_eq_true, false_iff]
      exact fun h => hc (Program.mem_of_mem_derivedOn h)
    · by_cases hk : c ∈ m₀.view.keys
      · exact .inr (Classical.not_not.mp fun hs => hc ((hset c hk).2 hs))
      · exact .inl hk
termination_by (ℓ c, U.length)
decreasing_by
  · exact lex_lt_of_le_of_lt hlt (length_erase_lt_of_mem hc)
  · exact .left _ _ hlt

theorem settled_of_initial
    (hm₀ : m₀.view = View.initial m₀.facts.keys I (rules.flatMap Rule.heads)) :
    Settled m₀.facts.keys m₀.view := by
  intro a ha
  refine ⟨?_, fun _ => ha⟩
  rw [hm₀] at ha ⊢
  simp only [View.initial] at ha ⊢
  rw [if_pos ha]
  split_ifs <;> simp

theorem resolve_from_initial {ℓ : Char → ℕ} (hp : Prepared rules I m₀ ℓ) (c : Char) :
    Succeeds m₀.view (resolve false rules false m₀.facts.keys c) fun r =>
      (r.getD false = true ↔
        c ∈ (Rule.clauses rules).derivedOn I (computedModel rules I m₀) m₀.facts.keys) ∧
      (r = none → c ∉ m₀.view.keys ∨ m₀.view.seen c = none) :=
  resolve_succeeds hp m₀.facts.keys c m₀.facts.nodup (fun _ h => h)
    (settled_of_initial hp.view_eq) fun _ ha hna => absurd ha hna

/-- The model resolution computes is a perfect model of the clauses. -/
theorem computedModel_perfect {ℓ : Char → ℕ} (hp : Prepared rules I m₀ ℓ) :
    IsPerfectModel (Rule.clauses rules) {a | a ∈ I} (computedModel rules I m₀) := by
  intro c
  by_cases hc : c ∈ m₀.facts.keys
  · have h := resolve_from_initial hp c
    rw [computedModel_of_succeeds hc (h.mono fun _ h => h.1),
      Program.derivedOn_iff_derived fun a ha => Rule.reaches_mem hp.letters_mem hc ha]
  · -- a letter outside the table is concluded by no clause
    have hP : ∀ φ, ¬ Rule.clauses rules c φ := by
      rintro φ ⟨r, hr, -, hcr, -⟩
      exact hc (hp.letters_mem r hr c (Rule.mem_letters.mpr (.inr hcr)))
    rw [computedModel, if_neg hc, decide_eq_true_iff, Program.mem_derived]
    simp [hP]

end FromInitial

end Entail
