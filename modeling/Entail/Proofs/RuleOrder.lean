import Entail.Proofs.Sessions
import Entail.Proofs.Coupling

/-! Reordering the rule lines of a rule book changes nothing while the rules that conclude each
letter keep their order; swapping two of those may. -/

namespace Entail

open Infer

/-! ## Rule books with their rule lines reordered -/

/-- The rule a line reads as; the table it is read against changes only the table it leaves. -/
def Rule.ofLine (line : String) : Except Fault Rule := (Rule.parse .empty line).2

theorem Rule.parse_snd (t : FactTable) (line : String) : (parse t line).2 = ofLine line := by
  obtain ⟨premise, conclusion, r, h⟩ := parse_eq_enter line
  rw [ofLine, h, h]

/-- A line reads as a rule. -/
def Rule.ReadsAs (line : String) (r : Rule) : Prop := Rule.ofLine line = .ok r

theorem Rule.readsAs_rightUnique : Relator.RightUnique ReadsAs := by
  intro l r₁ r₂ h₁ h₂
  rw [ReadsAs, h₁] at h₂
  exact Except.ok.inj h₂

/-- Whether a line reads as a rule that concludes the letter `c`. -/
def RuleBook.concludes (c : Char) (line : String) : Bool :=
  match Rule.ofLine line with
  | .ok r => r.conclusion.contains (.fact c)
  | .error _ => false

namespace RuleBook

/-- The rule lines of a rule book read in order: each line reads as its rule, whatever the table,
and the table is the rules entered one after the other. -/
theorem parseRules_eq_ok_iff {t t' : FactTable} {L : List String} {rs : List Rule} :
    parseRules t L = .ok (t', rs) ↔
      List.Forall₂ Rule.ReadsAs L rs ∧
        t' = rs.foldl (fun t r => Rule.enter t r.premise r.conclusion) t := by
  constructor
  · intro h
    refine ⟨?_, parseRules_eq_ok h⟩
    induction L generalizing t rs with
    | nil =>
        simp only [parseRules, Except.ok.injEq, Prod.mk.injEq] at h
        obtain ⟨-, rfl⟩ := h
        exact .nil
    | cons l L ih =>
        obtain ⟨t₁, r, rs', hp, hr, rfl⟩ := parseRules_cons_eq_ok h
        exact .cons (by rw [Rule.ReadsAs, ← Rule.parse_snd t, hp]) (ih hr)
  · rintro ⟨hL, rfl⟩
    induction hL generalizing t with
    | nil => rfl
    | @cons l r L rs hlr _ ih =>
        have h2 : (Rule.parse t l).2 = .ok r := by rw [Rule.parse_snd, hlr]
        have hp : Rule.parse t l = ((Rule.parse t l).1, .ok r) := by rw [← h2]
        rw [Rule.parse_eq_ok hp] at hp
        rw [parseRules, hp]
        simp [ih]

/-- A rule book is read from its rule lines, its line of initial facts and its line of queries. -/
theorem ofLines_of_parts {R : List String} {i q : String} {t : FactTable} {rs : List Rule}
    {I Q : List Char} (hR : parseRules .empty R = .ok (t, rs)) (hi : marked '=' i = some I)
    (hq : marked '?' q = some Q) : ofLines (R ++ [i, q]) = .ok ⟨rs, I, t, Q⟩ := by
  simp [ofLines, hi, hq, hR]

end RuleBook

/-! ## What reordering the lines keeps -/

namespace RuleBook

section Lines

variable {L L₁ L₂ : List String} {rs rs₁ rs₂ : List Rule}

/-- The rules of lines that are read are the rules the lines read as. -/
theorem mem_rules_iff (h : List.Forall₂ Rule.ReadsAs L rs) {r : Rule} :
    r ∈ rs ↔ ∃ l ∈ L, Rule.ReadsAs l r := by
  induction h with
  | nil => simp
  | @cons l r' L rs hlr _ ih =>
      simp only [List.mem_cons, ih, exists_eq_or_imp]
      constructor
      · rintro (rfl | h)
        · exact .inl hlr
        · exact .inr h
      · rintro (h | h)
        · exact .inl (Rule.readsAs_rightUnique hlr h).symm
        · exact .inr h

/-- The lines that conclude a letter read as the rules that conclude it. -/
theorem forall₂_filter (h : List.Forall₂ Rule.ReadsAs L rs) (c : Char) :
    List.Forall₂ Rule.ReadsAs (L.filter (concludes c))
      (rs.filter fun r => r.conclusion.contains (.fact c)) := by
  induction h with
  | nil => exact .nil
  | @cons l r L rs hlr _ ih =>
      have hc : concludes c l = r.conclusion.contains (.fact c) := by
        rw [concludes, show Rule.ofLine l = .ok r from hlr]
      rw [List.filter_cons, List.filter_cons, hc]
      split
      · exact .cons hlr ih
      · exact ih

theorem readsAs_of_mem (h : List.Forall₂ Rule.ReadsAs L rs) {l : String} (hl : l ∈ L) :
    ∃ r, Rule.ReadsAs l r := by
  induction h with
  | nil => simp at hl
  | @cons l' r L rs hlr _ ih =>
      rcases List.mem_cons.mp hl with rfl | hl
      · exact ⟨r, hlr⟩
      · exact ih hl

theorem exists_forall₂ (h : ∀ l ∈ L, ∃ r, Rule.ReadsAs l r) : ∃ rs, List.Forall₂ Rule.ReadsAs L rs := by
  induction L with
  | nil => exact ⟨[], .nil⟩
  | cons l L ih =>
      obtain ⟨r, hr⟩ := h l List.mem_cons_self
      obtain ⟨rs, hrs⟩ := ih fun l' hl' => h l' (List.mem_cons_of_mem l hl')
      exact ⟨r :: rs, .cons hr hrs⟩

end Lines

end RuleBook

/-- Entering the same rules in any order gives tables that hold the same facts. -/
theorem FactTable.alike_foldl_enter {rs₁ rs₂ : List Rule} (h : ∀ r, r ∈ rs₁ ↔ r ∈ rs₂) :
    (rs₁.foldl (fun t r => Rule.enter t r.premise r.conclusion) .empty).Alike
      (rs₂.foldl (fun t r => Rule.enter t r.premise r.conclusion) .empty) := by
  have hmem : ∀ (g : Rule → List Char) (d : Char), d ∈ rs₁.flatMap g ↔ d ∈ rs₂.flatMap g := by
    intro g d
    simp only [List.mem_flatMap, h]
  refine ⟨(List.perm_ext_iff_of_nodup (FactTable.nodup _) (FactTable.nodup _)).mpr fun d => ?_,
    funext fun d => ?_⟩
  · change d ∈ FactTable.keys _ ↔ d ∈ FactTable.keys _
    rw [Rule.mem_keys_foldl_enter, Rule.mem_keys_foldl_enter, hmem]
  · rw [Rule.get_foldl_enter, Rule.get_foldl_enter]
    by_cases hd : d ∈ rs₁.flatMap Rule.heads
    · rw [if_pos hd, if_pos ((hmem _ d).mp hd)]
    · rw [if_neg hd, if_neg fun h' => hd ((hmem _ d).mpr h')]

/-- Reordering the rule lines of a rule book that a run reads, keeping in their order the lines that
conclude each letter, leaves the run as it was: the same text written and the same ending. -/
theorem run_rule_order {text₁ text₂ : String} {L₁ L₂ : List String} {i q : String}
    (h₁ : RuleBook.cleanLines text₁ = L₁ ++ [i, q]) (h₂ : RuleBook.cleanLines text₂ = L₂ ++ [i, q])
    (hread : ∃ book, RuleBook.ofLines (RuleBook.cleanLines text₁) = .ok book)
    (hperm : L₁.Perm L₂)
    (horder : ∀ c, L₁.filter (RuleBook.concludes c) = L₂.filter (RuleBook.concludes c)) :
    Program.run [] text₂ = Program.run [] text₁ := by
  obtain ⟨book₁, hb₁⟩ := hread
  rw [h₁] at hb₁
  obtain ⟨R, i', q', hlines, hR, hi, hq⟩ := RuleBook.ofLines_eq_ok_parts hb₁
  obtain ⟨rfl, hiq⟩ := List.append_inj' hlines rfl
  simp only [List.cons.injEq, and_true] at hiq
  obtain ⟨rfl, rfl⟩ := hiq
  obtain ⟨hF₁, hfacts₁⟩ := RuleBook.parseRules_eq_ok_iff.mp hR
  -- the reordered lines read as rules too, the same ones
  obtain ⟨rs₂, hF₂⟩ := RuleBook.exists_forall₂ fun l hl =>
    RuleBook.readsAs_of_mem hF₁ (hperm.mem_iff.mpr hl)
  have hmem : ∀ r, r ∈ rs₂ ↔ r ∈ book₁.rules := fun r => by
    rw [RuleBook.mem_rules_iff hF₂, RuleBook.mem_rules_iff hF₁]
    simp only [hperm.mem_iff]
  have hrules : ∀ c, rs₂.filter (fun r => r.conclusion.contains (.fact c)) =
      book₁.rules.filter (fun r => r.conclusion.contains (.fact c)) := fun c =>
    Rule.readsAs_rightUnique.forall₂ (RuleBook.forall₂_filter hF₂ c)
      (by rw [← horder c]; exact RuleBook.forall₂_filter hF₁ c)
  have hb₂ := RuleBook.ofLines_of_parts (RuleBook.parseRules_eq_ok_iff.mpr ⟨hF₂, rfl⟩) hi hq
  -- both runs take the same initial facts and answer the same queries from alike tables
  have hm : Memory.Alike ⟨rs₂.foldl (fun t r => Rule.enter t r.premise r.conclusion) .empty, ""⟩
      ⟨book₁.facts, ""⟩ := ⟨by rw [hfacts₁]; exact FactTable.alike_foldl_enter hmem, rfl⟩
  have hR := Memory.Coupling.alike_memory
  have hrun := (Related.bind (S := fun _ => False) (Related.assume hR book₁.initial) fun _ =>
    Related.answerAll hR hrules (fun v cs res => Related.conclude hR false v cs res) false
      book₁.queries) hm
  rw [Program.run_nil, RuleBook.answerText, RuleBook.answerText, h₁, h₂, hb₁, hb₂]
  simp only [RuleBook.answerAll_quiet]
  generalize EStateM.run _ _ = r₂ at hrun ⊢
  generalize EStateM.run _ _ = r₁ at hrun ⊢
  cases hrun with
  | ok h => simp [h.2]
  | error h => simp [h.2]
  | stop h => exact h.elim

theorem run_rule_order_sample :
    RuleBook.cleanLines "A => B\nC => D\n=A\n?BD\n" = ["A => B", "C => D"] ++ ["=A", "?BD"] ∧
    RuleBook.cleanLines "C => D\nA => B\n=A\n?BD\n" = ["C => D", "A => B"] ++ ["=A", "?BD"] ∧
    (∃ book, RuleBook.ofLines (RuleBook.cleanLines "A => B\nC => D\n=A\n?BD\n") = .ok book) ∧
    ["A => B", "C => D"].Perm ["C => D", "A => B"] ∧
    (∀ c, ["A => B", "C => D"].filter (RuleBook.concludes c) =
      ["C => D", "A => B"].filter (RuleBook.concludes c)) ∧
    Program.run [] "C => D\nA => B\n=A\n?BD\n" = Program.run [] "A => B\nC => D\n=A\n?BD\n" := by
  have h₁ : RuleBook.cleanLines "A => B\nC => D\n=A\n?BD\n" = ["A => B", "C => D"] ++ ["=A", "?BD"] :=
    by decide +kernel
  have h₂ : RuleBook.cleanLines "C => D\nA => B\n=A\n?BD\n" = ["C => D", "A => B"] ++ ["=A", "?BD"] :=
    by decide +kernel
  have hread : ∃ book, RuleBook.ofLines (RuleBook.cleanLines "A => B\nC => D\n=A\n?BD\n") = .ok book :=
    ⟨_, rfl⟩
  have hperm : ["A => B", "C => D"].Perm ["C => D", "A => B"] := List.Perm.swap _ _ _
  -- the two rules conclude different letters
  have horder : ∀ c, ["A => B", "C => D"].filter (RuleBook.concludes c) =
      ["C => D", "A => B"].filter (RuleBook.concludes c) := by
    intro c
    have hA : Rule.ofLine "A => B" = .ok ⟨[.fact 'A'], .implies, [.fact 'B']⟩ := by decide +kernel
    have hC : Rule.ofLine "C => D" = .ok ⟨[.fact 'C'], .implies, [.fact 'D']⟩ := by decide +kernel
    by_cases hB : c = 'B' <;> by_cases hD : c = 'D' <;>
      simp_all [RuleBook.concludes]
  exact ⟨h₁, h₂, hread, hperm, horder, run_rule_order h₁ h₂ hread hperm horder⟩

/-- Of two rules that conclude the same letter, the later one that applies decides: swapping
them changes the answer. -/
theorem run_conflicting_rules :
    Program.run [] "A => B\nA => !B\n=A\n?B\n" = ⟨"Q[B]: False\n", "", .exit 0⟩ ∧
    Program.run [] "A => !B\nA => B\n=A\n?B\n" = ⟨"Q[B]: True\n", "", .exit 0⟩ :=
  ⟨by decide +kernel, by decide +kernel⟩

end Entail
