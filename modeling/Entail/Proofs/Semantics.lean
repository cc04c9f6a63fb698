import Entail.Proofs.Formula

/-! Rules as a logic program over fact letters, and its perfect model: one for every stratified
program. -/

namespace Entail

namespace Formula

/-- The letters read under a negation or in an operand of `^`. -/
def negLetters : Formula → List Char
  | atom _ => []
  | neg a => a.letters
  | bin .xor a b => a.letters ++ b.letters
  | bin .conj a b => a.negLetters ++ b.negLetters
  | bin .disj a b => a.negLetters ++ b.negLetters

/-- The formula holds when its letters in positive places are in `X`, and what stands under a
negation or in an operand of `^` is true in `M`. -/
def Holds (X : Set Char) (M : Char → Bool) : Formula → Prop
  | atom c => c ∈ X
  | neg a => a.eval M = false
  | bin .xor a b => Bool.xor (a.eval M) (b.eval M) = true
  | bin .conj a b => a.Holds X M ∧ b.Holds X M
  | bin .disj a b => a.Holds X M ∨ b.Holds X M

theorem mem_letters_of_mem_negLetters {φ : Formula} {d : Char} (h : d ∈ φ.negLetters) :
    d ∈ φ.letters := by
  induction φ with
  | atom c => simp [negLetters] at h
  | neg a _ => exact h
  | bin o a b iha ihb =>
      cases o with
      | xor => exact h
      | conj =>
          simp only [negLetters, List.mem_append] at h
          simp only [letters, List.mem_append]
          exact h.imp iha ihb
      | disj =>
          simp only [negLetters, List.mem_append] at h
          simp only [letters, List.mem_append]
          exact h.imp iha ihb

theorem eval_congr {φ : Formula} {ν μ : Char → Bool} (h : ∀ d ∈ φ.letters, ν d = μ d) :
    φ.eval ν = φ.eval μ := by
  induction φ with
  | atom c => exact h c (by simp [letters])
  | neg a ih => simp only [eval, ih h]
  | bin o a b iha ihb =>
      simp only [letters, List.mem_append] at h
      simp only [eval, iha fun d hd => h d (.inl hd), ihb fun d hd => h d (.inr hd)]

/-- Only the letters of a formula in positive places are read from `X`. -/
theorem Holds.mono {φ : Formula} {X Y : Set Char} {M : Char → Bool} (h : φ.Holds X M)
    (hXY : ∀ d ∈ φ.letters, d ∈ X → d ∈ Y) : φ.Holds Y M := by
  induction φ with
  | atom c => exact hXY c (by simp [letters]) h
  | neg a _ => exact h
  | bin o a b iha ihb =>
      simp only [letters, List.mem_append] at hXY
      cases o with
      | xor => exact h
      | conj => exact ⟨iha h.1 fun d hd => hXY d (.inl hd), ihb h.2 fun d hd => hXY d (.inr hd)⟩
      | disj => exact h.imp (iha · fun d hd => hXY d (.inl hd)) (ihb · fun d hd => hXY d (.inr hd))

/-- Only the letters under a negation or in an operand of `^` are read from the model. -/
theorem holds_congr_model {φ : Formula} {X : Set Char} {M M' : Char → Bool}
    (h : ∀ d ∈ φ.negLetters, M d = M' d) : φ.Holds X M ↔ φ.Holds X M' := by
  induction φ with
  | atom c => rfl
  | neg a _ => simp only [Holds, eval_congr h]
  | bin o a b iha ihb =>
      cases o with
      | xor =>
          simp only [negLetters, List.mem_append] at h
          simp only [Holds, eval_congr (φ := a) fun d hd => h d (.inl hd),
            eval_congr (φ := b) fun d hd => h d (.inr hd)]
      | conj =>
          simp only [negLetters, List.mem_append] at h
          simp only [Holds, iha fun d hd => h d (.inl hd), ihb fun d hd => h d (.inr hd)]
      | disj =>
          simp only [negLetters, List.mem_append] at h
          simp only [Holds, iha fun d hd => h d (.inl hd), ihb fun d hd => h d (.inr hd)]

/-- A formula holds exactly when it evaluates to true under an assignment that agrees with `X` on
its letters and with the model on the letters read in the model. -/
theorem holds_iff_eval {φ : Formula} {X : Set Char} {M ν : Char → Bool}
    (hpos : ∀ d ∈ φ.letters, d ∈ X ↔ ν d = true) (hneg : ∀ d ∈ φ.negLetters, ν d = M d) :
    φ.Holds X M ↔ φ.eval ν = true := by
  induction φ with
  | atom c => exact hpos c (by simp [letters])
  | neg a _ =>
      rw [Holds, eval, eval_congr (ν := ν) (μ := M) hneg]
      simp
  | bin o a b iha ihb =>
      simp only [letters, List.mem_append] at hpos
      cases o with
      | xor =>
          simp only [negLetters, List.mem_append] at hneg
          rw [Holds, eval, BinOp.eval, eval_congr (ν := ν) (μ := M) fun d hd => hneg d (.inl hd),
            eval_congr (φ := b) (ν := ν) (μ := M) fun d hd => hneg d (.inr hd)]
      | conj =>
          simp only [negLetters, List.mem_append] at hneg
          rw [Holds, eval, BinOp.eval, iha (fun d hd => hpos d (.inl hd)) fun d hd => hneg d (.inl hd),
            ihb (fun d hd => hpos d (.inr hd)) fun d hd => hneg d (.inr hd), Bool.and_eq_true]
      | disj =>
          simp only [negLetters, List.mem_append] at hneg
          rw [Holds, eval, BinOp.eval, iha (fun d hd => hpos d (.inl hd)) fun d hd => hneg d (.inl hd),
            ihb (fun d hd => hpos d (.inr hd)) fun d hd => hneg d (.inr hd), Bool.or_eq_true]

end Formula

/-- A program: which formulas conclude which letters. -/
abbrev Program := Char → Formula → Prop

namespace Program

variable (P : Program)

/-- One round of derivation from `X`: the initial facts, and every letter a clause concludes from a
formula that holds. -/
def step (I : Set Char) (M : Char → Bool) : Set Char →o Set Char where
  toFun X := I ∪ {c | ∃ φ, P c φ ∧ φ.Holds X M}
  monotone' X Y hXY := by
    rintro c (hc | ⟨φ, hP, hφ⟩)
    · exact .inl hc
    · exact .inr ⟨φ, hP, hφ.mono fun d _ hd => hXY hd⟩

/-- The letters the program derives from `I`, reading negated formulas in `M`. -/
def derived (I : Set Char) (M : Char → Bool) : Set Char := OrderHom.lfp (P.step I M)

/-- The clauses that conclude letters of `A`. -/
def within (A : Set Char) : Program := fun c φ => c ∈ A ∧ P c φ

/-- `x` depends on `y`: a clause for `x` mentions `y`. -/
def Dep (x y : Char) : Prop := ∃ φ, P x φ ∧ y ∈ φ.letters

/-- `x` depends on `y` through a negation or an operand of `^`. -/
def NegDep (x y : Char) : Prop := ∃ φ, P x φ ∧ y ∈ φ.negLetters

/-- The letters `x` depends on, itself included. -/
def Reaches : Char → Char → Prop := Relation.ReflTransGen P.Dep

/-- No letter depends on itself through a negation or an operand of `^`. -/
def Stratified : Prop := ∀ x y, P.NegDep x y → ¬ P.Reaches y x

variable {P}

theorem Dep.of_negDep {x y : Char} (h : P.NegDep x y) : P.Dep x y := by
  obtain ⟨φ, hP, hy⟩ := h
  exact ⟨φ, hP, Formula.mem_letters_of_mem_negLetters hy⟩

theorem mem_derived {I : Set Char} {M : Char → Bool} {c : Char} :
    c ∈ P.derived I M ↔ c ∈ I ∨ ∃ φ, P c φ ∧ φ.Holds (P.derived I M) M := by
  conv => lhs; rw [derived, ← OrderHom.map_lfp]
  rfl

/-- The derived letters lie in every set closed under the initial facts and the clauses. -/
theorem derived_subset {I X : Set Char} {M : Char → Bool} (hI : ∀ c ∈ I, c ∈ X)
    (hP : ∀ c φ, P c φ → φ.Holds X M → c ∈ X) : P.derived I M ⊆ X := by
  apply OrderHom.lfp_le
  rintro c (hc | ⟨φ, hc, hφ⟩)
  · exact hI c hc
  · exact hP c φ hc hφ

section Within

variable {I A B : Set Char} {M : Char → Bool}

theorem derived_within_subset : (P.within A).derived (I ∩ A) M ⊆ A :=
  derived_subset (fun _ hc => hc.2) fun _ _ hc _ => hc.1

theorem derived_within_mono (hAB : A ⊆ B) :
    (P.within A).derived (I ∩ A) M ⊆ (P.within B).derived (I ∩ B) M := by
  refine derived_subset (fun c hc => mem_derived.mpr (.inl ⟨hc.1, hAB hc.2⟩)) ?_
  rintro c φ ⟨hc, hP⟩ hφ
  exact mem_derived.mpr (.inr ⟨φ, ⟨hAB hc, hP⟩, hφ⟩)

theorem derived_within_subset_derived : (P.within A).derived (I ∩ A) M ⊆ P.derived I M := by
  refine derived_subset (fun c hc => mem_derived.mpr (.inl hc.1)) ?_
  rintro c φ ⟨-, hP⟩ hφ
  exact mem_derived.mpr (.inr ⟨φ, hP, hφ⟩)

/-- A derivation of `d` only uses letters `d` depends on, so it stays within any set holding them. -/
theorem mem_derived_within {d : Char} (hA : ∀ a, P.Reaches d a → a ∈ A)
    (hd : d ∈ P.derived I M) : d ∈ (P.within A).derived (I ∩ A) M := by
  -- every derived letter that `d` depends on is derived within `A`
  have hsub : P.derived I M ⊆ {a | P.Reaches d a → a ∈ (P.within A).derived (I ∩ A) M} := by
    refine derived_subset (fun a ha hr => mem_derived.mpr (.inl ⟨ha, hA a hr⟩)) ?_
    intro a φ hP hφ hr
    have hφ' : φ.Holds ((P.within A).derived (I ∩ A) M) M :=
      hφ.mono fun e he hX => hX (hr.tail ⟨φ, hP, he⟩)
    exact mem_derived.mpr (.inr ⟨φ, ⟨hA a hr, hP⟩, hφ'⟩)
  exact hsub hd .refl

theorem derived_within_iff {d : Char} (hA : ∀ a, P.Reaches d a → a ∈ A) :
    d ∈ (P.within A).derived (I ∩ A) M ↔ d ∈ P.derived I M :=
  ⟨(derived_within_subset_derived ·), mem_derived_within hA⟩

/-- A letter derived within `A` is initial, or concluded by a clause whose formula holds of the
letters derived without it. -/
theorem mem_derived_within_iff {c : Char} :
    c ∈ (P.within A).derived (I ∩ A) M ↔
      c ∈ A ∧ (c ∈ I ∨ ∃ φ, P c φ ∧ φ.Holds ((P.within (A \ {c})).derived (I ∩ (A \ {c})) M) M) := by
  set D := (P.within (A \ {c})).derived (I ∩ (A \ {c})) M
  constructor
  · intro hc
    -- every letter derived within `A` is derived without `c`, unless `c` itself has such a reason
    set Good := c ∈ I ∨ ∃ φ, P c φ ∧ φ.Holds D M
    have hsub : (P.within A).derived (I ∩ A) M ⊆ {d | d ∈ D ∨ Good} := by
      refine derived_subset ?_ ?_
      · rintro d ⟨hI, hdA⟩
        by_cases hdc : d = c
        · exact .inr (.inl (hdc ▸ hI))
        · exact .inl (mem_derived.mpr (.inl ⟨hI, hdA, hdc⟩))
      · rintro d φ ⟨hdA, hP⟩ hφ
        by_cases hg : Good
        · exact .inr hg
        · have hφD : φ.Holds D M := hφ.mono fun e _ he => he.resolve_right hg
          by_cases hdc : d = c
          · exact .inr (.inr ⟨φ, hdc ▸ hP, hφD⟩)
          · exact .inl (mem_derived.mpr (.inr ⟨φ, ⟨⟨hdA, hdc⟩, hP⟩, hφD⟩))
    refine ⟨derived_within_subset hc, (hsub hc).resolve_left fun hD => ?_⟩
    exact (derived_within_subset hD).2 rfl
  · rintro ⟨hcA, hI | ⟨φ, hP, hφ⟩⟩
    · exact mem_derived.mpr (.inl ⟨hI, hcA⟩)
    · have hφA := hφ.mono fun e _ he => derived_within_mono Set.sdiff_subset he
      exact mem_derived.mpr (.inr ⟨φ, ⟨hcA, hP⟩, hφA⟩)

end Within

/-- The derivations of `c` read the model only at the letters below a negation in the clauses of
letters `c` depends on. -/
theorem derived_of_agree {I : Set Char} {M M' : Char → Bool} {c : Char}
    (h : ∀ a, P.Reaches c a → ∀ φ, P a φ → ∀ d ∈ φ.negLetters, M d = M' d)
    (hc : c ∈ P.derived I M) : c ∈ P.derived I M' := by
  have hsub : P.derived I M ⊆ {a | P.Reaches c a → a ∈ P.derived I M'} := by
    refine derived_subset (fun a ha _ => mem_derived.mpr (.inl ha)) ?_
    intro a φ hP hφ hr
    have hφ' : φ.Holds (P.derived I M') M := hφ.mono fun e he hX => hX (hr.tail ⟨φ, hP, he⟩)
    exact mem_derived.mpr (.inr ⟨φ, hP, (Formula.holds_congr_model (h a hr φ hP)).mp hφ'⟩)
  exact hsub hc .refl

theorem derived_congr {I : Set Char} {M M' : Char → Bool} {c : Char}
    (h : ∀ a, P.Reaches c a → ∀ φ, P a φ → ∀ d ∈ φ.negLetters, M d = M' d) :
    c ∈ P.derived I M ↔ c ∈ P.derived I M' :=
  ⟨derived_of_agree h, derived_of_agree fun a ha φ hP d hd => (h a ha φ hP d hd).symm⟩

/-- In a stratified program whose clauses mention only letters of `K`, letters can be given levels
that never rise along a dependency and fall strictly through a negation. -/
theorem Stratified.exists_level (hs : P.Stratified) (K : Finset Char)
    (hK : ∀ x y, P.Dep x y → y ∈ K) :
    ∃ ℓ : Char → ℕ, (∀ x y, P.Dep x y → ℓ y ≤ ℓ x) ∧ (∀ x y, P.NegDep x y → ℓ y < ℓ x) := by
  classical
  -- the level of `x` counts the letters that stand below a negation somewhere under `x`
  let below : Char → Finset Char := fun x => K.filter fun e => ∃ y, P.Reaches x y ∧ P.NegDep y e
  have hmono : ∀ x y, P.Dep x y → below y ⊆ below x := by
    intro x y hxy e he
    simp only [below, Finset.mem_filter] at he ⊢
    obtain ⟨heK, z, hyz, hz⟩ := he
    exact ⟨heK, z, Relation.ReflTransGen.head hxy hyz, hz⟩
  refine ⟨fun x => (below x).card, fun x y hxy => Finset.card_le_card (hmono x y hxy),
    fun x y hxy => Finset.card_lt_card ⟨hmono x y (Dep.of_negDep hxy), fun hsub => ?_⟩⟩
  have hy : y ∈ below x := by
    simp only [below, Finset.mem_filter]
    exact ⟨hK x y (Dep.of_negDep hxy), x, .refl, hxy⟩
  obtain ⟨-, z, hyz, hz⟩ := Finset.mem_filter.mp (hsub hy)
  exact hs z y hz hyz

theorem level_le_of_reaches {ℓ : Char → ℕ} (hℓ : ∀ x y, P.Dep x y → ℓ y ≤ ℓ x) {x y : Char}
    (h : P.Reaches x y) : ℓ y ≤ ℓ x := by
  induction h with
  | refl => exact le_rfl
  | tail _ hdep ih => exact (hℓ _ _ hdep).trans ih

end Program

/-- `M` is a perfect model of `P` over the initial facts `I`: it makes true exactly the letters the
program derives when negated formulas are read in `M`. -/
def IsPerfectModel (P : Program) (I : Set Char) (M : Char → Bool) : Prop :=
  ∀ c, M c = true ↔ c ∈ P.derived I M

/-- With levels that a negation descends, a program has at most one perfect model: two perfect
models agree level by level, since a derivation reads the model only below a negation. -/
theorem IsPerfectModel.unique {P : Program} {I : Set Char} {M M' : Char → Bool} {ℓ : Char → ℕ}
    (hℓ : ∀ x y, P.Dep x y → ℓ y ≤ ℓ x) (hℓneg : ∀ x y, P.NegDep x y → ℓ y < ℓ x)
    (hM : IsPerfectModel P I M) (hM' : IsPerfectModel P I M') : M = M' := by
  funext c
  induction hn : ℓ c using Nat.strong_induction_on generalizing c with
  | _ n ih =>
      rw [Bool.eq_iff_iff, hM c, hM' c]
      refine Program.derived_congr fun a ha φ hP d hd => ?_
      have hlt : ℓ d < n :=
        hn ▸ lt_of_lt_of_le (hℓneg a d ⟨φ, hP, hd⟩) (Program.level_le_of_reaches hℓ ha)
      exact ih (ℓ d) hlt d rfl

end Entail
