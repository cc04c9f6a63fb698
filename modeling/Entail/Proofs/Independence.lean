import Entail.Proofs.Evaluation
import Entail.Program

/-! Answering a query reads of the table only the view and changes nothing in it, so a string of
queries is answered as its letters are, one after the other. -/

namespace Entail

open Infer

/-! ## Views -/

/-- What inference reads of a fact: whether it is atomic and, if it is, its value. -/
def Fact.seen (f : Fact) : Option (Option Bool) := if f.atomic then some f.value else none

/-- What inference reads of a fact table. -/
structure View where
  keys : List Char
  seen : Char → Option (Option Bool)

def FactTable.view (t : FactTable) : View := ⟨t.keys, fun c => (t.get c).seen⟩

def Memory.view (m : Memory) : View := m.facts.view

namespace FactTable

@[simp] theorem keys_modify (t : FactTable) (c : Char) (g : Fact → Fact) :
    (t.modify c g).keys = t.keys := by
  simp [modify, keys]

@[simp] theorem keys_modifyAll (t : FactTable) (g : Fact → Fact) :
    (t.modifyAll g).keys = t.keys := by
  simp [modifyAll, keys]

theorem lookup_map_snd (l : List (Char × Fact)) (g : Char → Fact → Fact) (d : Char) :
    (l.map fun e => (e.1, g e.1 e.2)).lookup d = (l.lookup d).map (g d) := by
  induction l with
  | nil => rfl
  | cons e l ih =>
      by_cases h : d = e.1
      · subst h
        simp [List.lookup]
      · have hne : (d == e.1) = false := by simpa using h
        simp [List.lookup, hne, ih]

theorem isSome_lookup (t : FactTable) (d : Char) : (t.entries.lookup d).isSome ↔ d ∈ t.keys := by
  rw [List.lookup_isSome_iff]
  simp only [keys, List.mem_map, beq_iff_eq]
  constructor
  · rintro ⟨p, hp, rfl⟩
    exact ⟨p, hp, rfl⟩
  · rintro ⟨p, hp, rfl⟩
    exact ⟨p, hp, rfl⟩

theorem get_modify (t : FactTable) (c d : Char) (g : Fact → Fact) :
    (t.modify c g).get d = if d = c ∧ d ∈ t.keys then g (t.get d) else t.get d := by
  have hl := lookup_map_snd t.entries (fun a f => if a = c then g f else f) d
  simp only [get, modify] at hl ⊢
  rw [hl]
  cases hd : t.entries.lookup d with
  | none =>
      have hk : d ∉ t.keys := by simp [← isSome_lookup, hd]
      simp [hk]
  | some f =>
      have hk : d ∈ t.keys := by simp [← isSome_lookup, hd]
      by_cases hc : d = c
      · subst hc
        simp [hk]
      · simp [hc]

theorem get_modifyAll (t : FactTable) (d : Char) (g : Fact → Fact) (hd : d ∈ t.keys) :
    (t.modifyAll g).get d = g (t.get d) := by
  have hl := lookup_map_snd t.entries (fun _ f => g f) d
  simp only [get, modifyAll] at hl ⊢
  rw [hl]
  obtain ⟨f, hf⟩ := Option.isSome_iff_exists.mp ((isSome_lookup t d).mpr hd)
  simp [hf]

/-- Settling the value of a fact that is not atomic, or of a letter the table lacks, leaves the
view as it was. -/
theorem view_modify_value (t : FactTable) (c : Char) (b : Bool)
    (h : c ∉ t.keys ∨ (t.get c).seen = none) :
    (t.modify c fun f => { f with value := some b }).view = t.view := by
  simp only [view, keys_modify, View.mk.injEq, true_and]
  funext d
  rw [get_modify]
  by_cases hd : d = c ∧ d ∈ t.keys
  · obtain ⟨rfl, hk⟩ := hd
    have hs : (t.get d).seen = none := h.resolve_left (· hk)
    simp only [Fact.seen, ite_eq_right_iff, reduceCtorEq, imp_false, Bool.not_eq_true] at hs
    simp [hk, Fact.seen, hs]
  · simp [hd]

end FactTable

/-! ## Computations that read only the view -/

section Steady

variable {α β : Type}

theorem Infer.run_bind_eq_ok {x : Infer α} {f : α → Infer β} {m m' : Memory} {v : β} :
    (x >>= f).run m = .ok v m' ↔ ∃ a m₁, x.run m = .ok a m₁ ∧ (f a).run m₁ = .ok v m' := by
  simp only [EStateM.run_bind]
  cases hx : x.run m with
  | ok a m₁ => simp
  | error e m₁ => simp

@[simp] theorem Infer.run_say (line : String) (m : Memory) :
    (say line).run m = .ok () { m with written := m.written ++ line ++ "\n" } := rfl

@[simp] theorem Infer.run_update (c : Char) (g : Fact → Fact) (m : Memory) :
    (update c g).run m = .ok () { m with facts := m.facts.modify c g } := rfl

@[simp] theorem Infer.run_table_bind (f : FactTable → Infer α) (m : Memory) :
    (table >>= f).run m = (f m.facts).run m := rfl

/-- Run from a memory whose view satisfies `P`, a successful `x` keeps the view and gives a value
satisfying `Q`; from any memory with the same view it succeeds too, with the same value and
the same text written. Unlike `Infer.Related`, it compares runs from tables that only look
alike, and says nothing of runs that fail. -/
def Steady (P : View → Prop) (x : Infer α) (Q : α → View → Prop) : Prop :=
  ∀ ⦃m₁ : Memory⦄ ⦃v : α⦄ ⦃m₁' : Memory⦄, P m₁.view → x.run m₁ = .ok v m₁' →
    m₁'.view = m₁.view ∧ Q v m₁.view ∧
    ∀ ⦃m₂ : Memory⦄, m₂.view = m₁.view →
      ∃ m₂' s, x.run m₂ = .ok v m₂' ∧ m₁'.written = m₁.written ++ s ∧
        m₂'.written = m₂.written ++ s

namespace Steady

variable {P P' : View → Prop} {x : Infer α} {Q Q' : α → View → Prop}

theorem mono (h : Steady P x Q) (hP : ∀ w, P' w → P w) (hQ : ∀ v w, P' w → Q v w → Q' v w) :
    Steady P' x Q' := by
  intro m₁ v m₁' hP' hr
  obtain ⟨hview, hq, htwin⟩ := h (hP _ hP') hr
  exact ⟨hview, hQ _ _ hP' hq, htwin⟩

theorem of_fails (h : ∀ m v m', x.run m ≠ .ok v m') : Steady P x Q :=
  fun m₁ v m₁' _ hr => absurd hr (h m₁ v m₁')

theorem pure {a : α} (h : ∀ w, P w → Q a w) : Steady P (Pure.pure a) Q := by
  intro m₁ v m₁' hP hr
  rw [EStateM.run_pure] at hr
  cases hr
  exact ⟨rfl, h _ hP, fun m₂ _ => ⟨m₂, "", EStateM.run_pure _ _, by simp, by simp⟩⟩

theorem bind {f : α → Infer β} {R : β → View → Prop} (hx : Steady P x Q)
    (hf : ∀ a, Steady (fun w => P w ∧ Q a w) (f a) R) : Steady P (x >>= f) R := by
  intro m₁ v m₁' hP hr
  obtain ⟨a, n₁, hxr, hfr⟩ := run_bind_eq_ok.mp hr
  obtain ⟨hview, hq, htwin⟩ := hx hP hxr
  obtain ⟨hview', hR, htwin'⟩ := hf a (by rw [hview]; exact ⟨hP, hq⟩) hfr
  refine ⟨hview'.trans hview, by rwa [hview] at hR, fun m₂ h₂ => ?_⟩
  obtain ⟨n₂, s₁, hx₂, hw₁, hw₂⟩ := htwin h₂
  -- the first step keeps the view of the second memory as well
  have hn₂ : n₂.view = n₁.view := by
    have hP₂ : P m₂.view := by rw [h₂]; exact hP
    rw [(hx hP₂ hx₂).1, h₂, hview]
  obtain ⟨m₂', s₂, hf₂, hw₁', hw₂'⟩ := htwin' hn₂
  exact ⟨m₂', s₁ ++ s₂, run_bind_eq_ok.mpr ⟨a, n₂, hx₂, hf₂⟩,
    by rw [hw₁', hw₁, String.append_assoc], by rw [hw₂', hw₂, String.append_assoc]⟩

theorem say {Q : Unit → View → Prop} (line : String) (h : ∀ w, P w → Q () w) :
    Steady P (Infer.say line) Q := by
  intro m₁ v m₁' hP hr
  rw [run_say] at hr
  cases hr
  exact ⟨rfl, h _ hP, fun m₂ _ =>
    ⟨_, line ++ "\n", run_say line m₂, by simp [String.append_assoc], by simp [String.append_assoc]⟩⟩

theorem update_value {Q : Unit → View → Prop} {c : Char} {b : Bool} (hc : ∀ w, P w → c ∉ w.keys ∨ w.seen c = none)
    (h : ∀ w, P w → Q () w) : Steady P (update c fun f => { f with value := some b }) Q := by
  intro m₁ v m₁' hP hr
  rw [run_update] at hr
  cases hr
  exact ⟨FactTable.view_modify_value _ _ _ (hc _ hP), h _ hP, fun m₂ _ =>
    ⟨_, "", run_update _ _ m₂, by simp, by simp⟩⟩

/-- A computation that chooses what to do from the table, choosing alike on alike views. -/
theorem table_bind {f : FactTable → Infer α} (hf : ∀ t₁ t₂, t₁.view = t₂.view → f t₁ = f t₂)
    (h : ∀ t, Steady (fun w => P w ∧ w = t.view) (f t) Q) : Steady P (table >>= f) Q := by
  intro m₁ v m₁' hP hr
  rw [run_table_bind] at hr
  obtain ⟨hview, hq, htwin⟩ := h m₁.facts ⟨hP, rfl⟩ hr
  refine ⟨hview, hq, fun m₂ h₂ => ?_⟩
  rw [run_table_bind, hf m₂.facts m₁.facts h₂]
  exact htwin h₂

theorem of_throw {e : Fault} : Steady P (throw e : Infer α) Q :=
  of_fails fun m v m' => by simp [run_throw]

theorem of_throw_table {e : FactTable → Fault} :
    Steady P (table >>= fun t => (throw (e t) : Infer α)) Q :=
  of_fails fun m v m' => by
    rw [run_table_bind, run_throw]
    exact nofun

theorem lift {r : Except Fault α} (h : ∀ a w, r = .ok a → P w → Q a w) :
    Steady P (Infer.lift r) Q := by
  cases r with
  | ok a => exact pure fun w hw => h a w rfl hw
  | error e => exact of_throw

theorem foldlM {f : β → α → Infer β} {l : List α} {init : β}
    (h : ∀ acc, ∀ r ∈ l, Steady P (f acc r) fun _ _ => True) :
    Steady P (l.foldlM f init) fun _ _ => True := by
  induction l generalizing init with
  | nil => exact pure fun _ _ => trivial
  | cons r l ih =>
      rw [List.foldlM_cons]
      refine (h init r (by simp)).bind fun acc => ?_
      exact (ih fun acc r hr => h acc r (by simp [hr])).mono (fun _ hw => hw.1) fun _ _ _ _ => trivial

theorem forM {f : α → Infer PUnit} {l : List α} (h : ∀ a ∈ l, Steady P (f a) fun _ _ => True) :
    Steady P (l.forM f) fun _ _ => True := by
  induction l with
  | nil => exact pure fun _ _ => trivial
  | cons a l ih =>
      simp only [List.forM]
      refine (h a (by simp)).bind fun _ => ?_
      exact (ih fun b hb => h b (by simp [hb])).mono (fun _ hw => hw.1) fun _ _ _ _ => trivial

end Steady

/-! ## The steps of inference -/

/-- While the letters `U` are unvisited: every atomic fact of the table holds a value and is
unvisited. -/
def Settled (U : List Char) (w : View) : Prop :=
  ∀ d ∈ w.keys, w.seen d ≠ some none ∧ (w.seen d ≠ none → d ∈ U)

theorem Settled.erase {U : List Char} {w : View} {c : Char} (h : Settled U w)
    (hc : w.seen c = none) : Settled (U.erase c) w := by
  intro d hd
  obtain ⟨hv, hu⟩ := h d hd
  refine ⟨hv, fun hs => ?_⟩
  have hdc : d ≠ c := by
    rintro rfl
    exact hs hc
  exact (List.mem_erase_of_ne hdc).mpr (hu hs)

theorem Fact.seen_eq_none {f : Fact} (h : f.atomic = false) : f.seen = none := by
  simp [Fact.seen, h]

/-- Facts that look alike are read alike. -/
theorem Fact.ite_atomic_eq {f₁ f₂ : Fact} (h : f₁.seen = f₂.seen) (y : Infer (Option Bool)) :
    (if f₁.atomic then Pure.pure f₁.value else y) = (if f₂.atomic then Pure.pure f₂.value else y) := by
  unfold Fact.seen at h
  cases h₁ : f₁.atomic <;> cases h₂ : f₂.atomic <;> simp_all


namespace Steady

variable {P : View → Prop}

/-- The stack machine reads the view through the resolver alone, and settles to false only facts
that the view does not show. -/
theorem postfix_run {R : Char → Infer (Option Bool)}
    (hR : ∀ c, Steady P (R c) fun r w => r = none → c ∉ w.keys ∨ w.seen c = none)
    (stack : List Operand) (code : Postfix) :
    Steady P (Postfix.run R stack code) fun _ _ => True := by
  induction code generalizing stack with
  | nil =>
      rcases stack with _ | ⟨x, _ | ⟨y, below⟩⟩
      · rw [Postfix.run.eq_2 _ _ (by simp)]
        exact of_throw
      · rw [Postfix.run.eq_1]
        exact pure fun _ _ => trivial
      · rw [Postfix.run.eq_2 _ _ (by simp)]
        exact of_throw
  | cons i rest ih =>
      cases i with
      | push c =>
          rw [Postfix.run.eq_3]
          refine (hR c).bind fun r => ?_
          cases r with
          | some b => exact (ih _).mono (fun _ hw => hw.1) fun _ _ _ _ => trivial
          | none =>
              -- the fact resolved to nothing, so its value is hidden from the view
              refine (update_value (Q := fun _ _ => True) (fun w hw => hw.2 rfl)
                fun _ _ => trivial).bind fun _ => ?_
              exact (ih _).mono (fun _ hw => hw.1.1) fun _ _ _ _ => trivial
      | apply c =>
          cases stack with
          | nil =>
              rw [Postfix.run.eq_4]
              exact of_throw
          | cons x below =>
              cases hu : c.isUnary with
              | true =>
                  rw [Postfix.run_unary R hu]
                  exact ih _
              | false =>
                  cases below with
                  | nil =>
                      rw [Postfix.run.eq_5]
                      simp only [hu, Bool.false_eq_true, if_false]
                      exact of_throw_table
                  | cons y below =>
                      rw [Postfix.run_binary R hu]
                      exact ih _

/-- Without its report, reading a conclusion touches nothing: it gives a value or fails. -/
theorem conclude (inSession : Bool) (conclusion : List Token) (res : Bool) :
    Steady P (Infer.conclude inSession false conclusion res) fun _ _ => True := by
  unfold Infer.conclude
  rw [if_neg Bool.false_ne_true]
  beta_reduce
  -- the shapes of a conclusion: empty, one token, two, three, or more
  rcases conclusion with _ | ⟨t₁, _ | ⟨t₂, _ | ⟨t₃, _ | ⟨t₄, rest⟩⟩⟩⟩
  · exact of_throw_table
  · cases t₁ <;> exact pure fun _ _ => trivial
  · rcases t₁ with _ | c | _ | _
    · exact of_throw_table
    · cases c <;> first | exact pure fun _ _ => trivial | exact of_throw_table
    · exact of_throw
    · exact of_throw
  · cases inSession with
    | false =>
        cases t₁ <;> rcases t₂ with _ | c | _ | _ <;> (try cases c) <;>
          first | exact pure fun _ _ => trivial | exact of_throw
    | true => cases t₁ <;> exact of_throw
  · cases t₁ <;> exact of_throw_table

/-- Resolution without reports reads only the view, and leaves a fact unsettled only where the view
does not show it. -/
theorem resolve (inSession : Bool) (rules : List Rule) (U : List Char) (c : Char) :
    Steady (Settled U) (Infer.resolve inSession rules false U c)
      fun r w => r = none → c ∉ w.keys ∨ w.seen c = none := by
  by_cases hc : c ∈ U
  · rw [Infer.resolve, dif_pos hc]
    simp only [Bool.false_eq_true, if_false]
    refine table_bind (fun t₁ t₂ ht => ?_) fun t => ?_
    · have hs : (t₁.get c).seen = (t₂.get c).seen := congrFun (congrArg View.seen ht) c
      exact Fact.ite_atomic_eq hs _
    · cases ha : (t.get c).atomic with
      | true =>
          simp only [if_true]
          refine pure fun w ⟨hS, hw⟩ hnone => ?_
          by_cases hk : c ∈ w.keys
          · have hv := (hS c hk).1
            rw [hw] at hv
            simp [FactTable.view, Fact.seen, ha, hnone] at hv
          · exact .inl hk
      | false =>
          have hseen : ∀ w, w = t.view → w.seen c = none := by
            rintro w rfl
            exact Fact.seen_eq_none ha
          simp only [Bool.false_eq_true, if_false]
          refine (foldlM fun acc r _ => ?_).mono (fun w hw => hw) fun _ w hw _ _ => .inr (hseen w hw.2)
          split
          · exact (say (Q := fun _ _ => True) _ fun _ _ => trivial).bind fun _ => pure fun _ _ => trivial
          · refine (lift (Q := fun _ _ => True) fun _ _ _ _ => trivial).bind fun code => ?_
            -- the premise is evaluated with `c` visited, which the view shows is not atomic
            have hR : ∀ d, Steady (fun w => (Settled U w ∧ w = t.view) ∧ True)
                (Infer.resolve inSession rules false (U.erase c) d)
                fun r w => r = none → d ∉ w.keys ∨ w.seen d = none := fun d =>
              (resolve inSession rules (U.erase c) d).mono
                (fun w hw => hw.1.1.erase (hseen w hw.1.2)) fun _ _ _ h => h
            refine (postfix_run hR [] code).bind fun v => ?_
            split
            · split
              · exact conclude _ _ _
              · exact pure fun _ _ => trivial
            · exact conclude _ _ _
  · rw [Infer.resolve, dif_neg hc]
    refine pure fun w hS _ => ?_
    by_cases hk : c ∈ w.keys
    · exact .inr (Classical.not_not.mp fun hs => hc ((hS c hk).2 hs))
    · exact .inl hk
termination_by U.length
decreasing_by exact length_erase_lt_of_mem hc

/-- Every atomic fact of the table holds a value. -/
def Valued (w : View) : Prop := ∀ d ∈ w.keys, w.seen d ≠ some none

theorem answer (inSession : Bool) (rules : List Rule) (q : Char) :
    Steady Valued (Infer.answer inSession false rules q) fun _ _ => True := by
  unfold Infer.answer
  refine table_bind (fun t₁ t₂ ht => ?_) fun t => ?_
  · have hk : t₁.keys = t₂.keys := congrArg View.keys ht
    have hc : t₁.contains q = t₂.contains q := by simp only [FactTable.contains, hk]
    rw [hc, hk]
  · cases hq : t.contains q with
    | true =>
        rw [if_pos rfl]
        -- a query starts with every letter of the table unvisited
        have hstart : ∀ w, Valued w ∧ w = t.view → Settled t.keys w := by
          rintro w ⟨hv, rfl⟩ d hd
          exact ⟨hv d hd, fun _ => hd⟩
        refine ((resolve inSession rules t.keys q).mono hstart fun _ _ _ _ => trivial).bind
          fun v => ?_
        exact say _ fun _ _ => trivial
    | false =>
        rw [if_neg Bool.false_ne_true]
        exact say _ fun _ _ => trivial

theorem answerAll (inSession : Bool) (rules : List Rule) (qs : List Char) :
    Steady Valued (Infer.answerAll inSession false rules qs) fun _ _ => True :=
  forM fun q _ => answer inSession rules q

end Steady

/-! ## A string of queries -/

/-- From a memory whose atomic facts hold values, a string of queries is answered as each of its
letters is answered alone from that memory, one after the other, from any memory that looks the
same. -/
theorem Infer.answerAll_of_answer {inSession : Bool} {rules : List Rule} {m : Memory}
    (hm : Steady.Valued m.view) {block : Char → String} {qs : List Char}
    (h : ∀ q ∈ qs, ∃ m', (answer inSession false rules q).run m = .ok () m' ∧
      m'.written = m.written ++ block q) (M : Memory) (hM : M.view = m.view) :
    ∃ M', (answerAll inSession false rules qs).run M = .ok () M' ∧
      M'.written = M.written ++ String.join (qs.map block) := by
  induction qs generalizing M with
  | nil => exact ⟨M, rfl, by simp⟩
  | cons q qs ih =>
      obtain ⟨m', hrun, hw⟩ := h q (by simp)
      obtain ⟨hview, -, htwin⟩ := Steady.answer inSession rules q hm hrun
      obtain ⟨M₁, s, hrun₁, hs, hw₁⟩ := htwin hM
      -- the text the query writes is its block, and the query keeps the view
      have hblock : s = block q := by
        rw [hw, String.append_right_inj] at hs
        exact hs.symm
      have hview₁ : M₁.view = m.view := by
        have hv : Steady.Valued M.view := by rw [hM]; exact hm
        rw [(Steady.answer inSession rules q hv hrun₁).1, hM]
      obtain ⟨M', hrest, hw'⟩ := ih (fun r hr => h r (by simp [hr])) M₁ hview₁
      refine ⟨M', ?_, ?_⟩
      · simp only [Infer.answerAll, List.forM] at hrest ⊢
        exact run_bind_eq_ok.mpr ⟨(), M₁, hrun₁, hrest⟩
      · rw [hw', hw₁, hblock, List.map_cons, String.join_cons, String.append_assoc]

end Steady

/-! ## Rule books that end with a query line -/

namespace RuleBook

theorem cleanLine_word {w : List Char} (hne : w ≠ []) (hs : ∀ c ∈ w, (c == ' ') = false)
    (hh : w.head? ≠ some '#') : cleanLine (String.ofList w) = some (String.ofList w) := by
  have hwords : words (String.ofList w) = [String.ofList w] := by
    have hsplit : w.splitOn ' ' = [w] := by
      rw [List.splitOn_eq_splitOnP]
      exact List.splitOnP_eq_singleton hs
    have hempty : String.ofList w ≠ "" := by simpa using hne
    simp [words, pieces, hsplit, hempty]
  simp [cleanLine, hwords, hh, String.intercalate_singleton]

theorem cleanLine_empty : cleanLine "" = none := rfl

/-- A text whose last line asks for capital letters reads as the text before it, then that line. -/
theorem cleanLines_query (pre : String) (qs : List Char) (hq : ∀ c ∈ qs, isFactName c = true) :
    cleanLines (pre ++ "\n?" ++ String.ofList qs ++ "\n") =
      cleanLines pre ++ [String.ofList ('?' :: qs)] := by
  -- a capital letter is neither a newline nor a space
  have hletter : ∀ c ∈ '?' :: qs, (c == '\n') = false ∧ (c == ' ') = false := by
    intro c hc
    rcases List.mem_cons.mp hc with rfl | hc
    · decide
    · have h := hq c hc
      simp only [isFactName] at h
      constructor <;> (rw [beq_eq_false_iff_ne]; rintro rfl; simp at h)
  have hlist : (pre ++ "\n?" ++ String.ofList qs ++ "\n").toList =
      pre.toList ++ '\n' :: (('?' :: qs) ++ '\n' :: []) := by
    simp [String.toList_append, show ("\n?" : String).toList = ['\n', '?'] from rfl,
      show ("\n" : String).toList = ['\n'] from rfl]
  have hsplit : (pre ++ "\n?" ++ String.ofList qs ++ "\n").toList.splitOn '\n' =
      pre.toList.splitOn '\n' ++ [('?' :: qs), []] := by
    rw [hlist, List.splitOn_eq_splitOnP, List.splitOnP_append_cons _ _ (by simp),
      List.splitOnP_append_cons_of_forall_mem (fun c hc => (hletter c hc).1) _ (by simp)]
    simp [List.splitOn_eq_splitOnP]
  have hline : cleanLine (String.ofList ('?' :: qs)) = some (String.ofList ('?' :: qs)) :=
    cleanLine_word (by simp) (fun c hc => (hletter c hc).2) (by simp)
  simp only [cleanLines, pieces, hsplit, List.map_append, List.filterMap_append, List.map_cons,
    List.map_nil, List.filterMap_cons, hline, String.ofList_nil, cleanLine_empty,
    List.filterMap_nil]

/-- The query line of a rule book decides its queries and nothing else. -/
theorem ofLines_query (L : List String) (qs : List Char) (hq : ∀ c ∈ qs, isFactName c = true) :
    ofLines (L ++ [String.ofList ('?' :: qs)]) =
      (fun b => { b with queries := qs }) <$> ofLines (L ++ ["?"]) := by
  have hm : marked '?' (String.ofList ('?' :: qs)) = some qs := by
    simp only [marked, String.toList_ofList, true_and]
    rw [if_pos (List.all_eq_true.mpr hq)]
  have h₀ : marked '?' "?" = some [] := rfl
  simp only [ofLines, List.reverse_append, List.reverse_cons, List.reverse_nil, List.nil_append,
    List.singleton_append]
  rcases L.reverse with _ | ⟨initial, rest⟩
  · rfl
  · simp only [hm, h₀]
    cases marked '=' initial with
    | none => rfl
    | some given =>
        cases parseRules .empty rest.reverse with
        | error e => rfl
        | ok p => rfl

end RuleBook

theorem Outcome.ofFault_ending (written : String) (e : Fault) :
    (Outcome.ofFault written e).ending ≠ .exit 0 := by
  unfold Outcome.ofFault
  split <;> simp

@[simp] theorem Infer.run_updateAll (g : Fact → Fact) (m : Memory) :
    (updateAll g).run m = .ok () { m with facts := m.facts.modifyAll g } := rfl

theorem Fact.seen_settled (f : Fact) :
    (if (f.atomic && f.value == none) = true then { f with value := some false } else f).seen ≠
      some none := by
  rcases f with ⟨_ | _, _ | _⟩ <;> simp [Fact.seen]

/-- Taking the initial facts leaves every atomic fact with a value. -/
theorem Infer.assume_valued {initial : List Char} {m m₀ : Memory}
    (h : (assume initial).run m = .ok () m₀) : Steady.Valued m₀.view := by
  obtain ⟨_, m₁, -, h₁⟩ := run_bind_eq_ok.mp h
  obtain ⟨_, m₂, -, h₂⟩ := run_bind_eq_ok.mp h₁
  rw [run_updateAll] at h₂
  cases h₂
  intro d hd
  simp only [Memory.view, FactTable.view, FactTable.keys_modifyAll] at hd ⊢
  rw [FactTable.get_modifyAll _ _ _ hd]
  exact Fact.seen_settled _

theorem Infer.answerAll_single (inSession verbose : Bool) (rules : List Rule) (q : Char) :
    answerAll inSession verbose rules [q] = answer inSession verbose rules q := by
  simp [answerAll, List.forM]

/-! ## The program with a query line -/

/-- With no options the program reads the rule book from its input. -/
theorem Program.run_nil : Program.run [] = RuleBook.answerText false := rfl

theorem RuleBook.answerAll_quiet (book : RuleBook) :
    answerAll false book =
      (assume book.initial >>= fun _ => Infer.answerAll false false book.rules book.queries) :=
  rfl

/-- Run on a text whose last line asks for a nonempty string of capital letters: when the program
ends normally for each letter asked alone, it ends normally for the string, and writes what the
single runs have in common followed by the answer of each letter in turn. -/
theorem run_queries_independent (pre : String) (q : Char) (qs : List Char)
    (hq : ∀ c ∈ q :: qs, isFactName c = true)
    (hsingle : ∀ c ∈ q :: qs,
      (Program.run [] (pre ++ "\n?" ++ String.ofList [c] ++ "\n")).ending = .exit 0) :
    ∃ (out : String) (block : Char → String),
      (∀ c ∈ q :: qs, Program.run [] (pre ++ "\n?" ++ String.ofList [c] ++ "\n") =
        ⟨out ++ block c, "", .exit 0⟩) ∧
      Program.run [] (pre ++ "\n?" ++ String.ofList (q :: qs) ++ "\n") =
        ⟨out ++ String.join ((q :: qs).map block), "", .exit 0⟩ := by
  have hone : ∀ c ∈ q :: qs, ∀ d ∈ [c], isFactName d = true := by
    intro c hc d hd
    rw [List.mem_singleton.mp hd]
    exact hq c hc
  simp only [Program.run_nil] at hsingle ⊢
  -- every text reads as one rule book, with its own queries
  cases hb : RuleBook.ofLines (RuleBook.cleanLines pre ++ ["?"]) with
  | error e =>
      have h := hsingle q (by simp)
      rw [RuleBook.answerText, RuleBook.cleanLines_query pre [q] (hone q (by simp)),
        RuleBook.ofLines_query _ _ (hone q (by simp)), hb] at h
      exact absurd h (Outcome.ofFault_ending "" e)
  | ok b =>
      have hread : ∀ ws, (∀ c ∈ ws, isFactName c = true) →
          RuleBook.ofLines (RuleBook.cleanLines (pre ++ "\n?" ++ String.ofList ws ++ "\n")) =
            .ok { b with queries := ws } := by
        intro ws hws
        rw [RuleBook.cleanLines_query pre ws hws, RuleBook.ofLines_query _ ws hws, hb]
        rfl
      -- and every run takes the same initial facts
      cases hm : (assume b.initial).run ⟨b.facts, ""⟩ with
      | error e m =>
          have h := hsingle q (by simp)
          simp only [RuleBook.answerText, hread [q] (hone q (by simp)), RuleBook.answerAll_quiet,
            EStateM.run_bind, hm] at h
          exact absurd h (Outcome.ofFault_ending _ e)
      | ok u m₀ =>
          have hv := assume_valued hm
          have hanswer : ∀ c ∈ q :: qs, ∃ m', (answer false false b.rules c).run m₀ = .ok () m' ∧
              RuleBook.answerText false (pre ++ "\n?" ++ String.ofList [c] ++ "\n") =
                ⟨m'.written, "", .exit 0⟩ := by
            intro c hc
            have h := hsingle c hc
            simp only [RuleBook.answerText, hread [c] (hone c hc), RuleBook.answerAll_quiet,
              EStateM.run_bind, hm, answerAll_single] at h ⊢
            cases hr : (answer false false b.rules c).run m₀ with
            | ok _ m' => exact ⟨m', rfl, rfl⟩
            | error e m' =>
                rw [hr] at h
                exact absurd h (Outcome.ofFault_ending _ e)
          -- the text each letter writes after the common part
          have hsplit : ∀ c, ∃ s, ∀ m', (answer false false b.rules c).run m₀ = .ok () m' →
              m'.written = m₀.written ++ s := by
            intro c
            cases hr : (answer false false b.rules c).run m₀ with
            | ok _ m' =>
                obtain ⟨-, -, htwin⟩ := Steady.answer false b.rules c hv hr
                obtain ⟨-, s, -, hs, -⟩ := htwin rfl
                exact ⟨s, fun m'' h => by cases h; exact hs⟩
            | error e m' => exact ⟨"", fun _ h => nomatch h⟩
          choose block hblock using hsplit
          refine ⟨m₀.written, block, fun c hc => ?_, ?_⟩
          · obtain ⟨m', hr, hout⟩ := hanswer c hc
            rw [hout, hblock c m' hr]
          · have hall : ∀ c ∈ q :: qs, ∃ m', (answer false false b.rules c).run m₀ = .ok () m' ∧
                m'.written = m₀.written ++ block c := by
              intro c hc
              obtain ⟨m', hr, -⟩ := hanswer c hc
              exact ⟨m', hr, hblock c m' hr⟩
            obtain ⟨M, hM, hw⟩ := answerAll_of_answer hv hall m₀ rfl
            simp only [RuleBook.answerText, hread _ hq, RuleBook.answerAll_quiet, EStateM.run_bind,
              hm, hM, hw]

theorem run_queries_sample :
    (∀ c ∈ ['A', 'B'], isFactName c = true) ∧
    (∀ c ∈ ['A', 'B'],
      (Program.run [] ("A => B\n=A" ++ "\n?" ++ String.ofList [c] ++ "\n")).ending = .exit 0) ∧
    ∃ (out : String) (block : Char → String),
      (∀ c ∈ ['A', 'B'], Program.run [] ("A => B\n=A" ++ "\n?" ++ String.ofList [c] ++ "\n") =
        ⟨out ++ block c, "", .exit 0⟩) ∧
      Program.run [] ("A => B\n=A" ++ "\n?" ++ String.ofList ['A', 'B'] ++ "\n") =
        ⟨out ++ String.join (['A', 'B'].map block), "", .exit 0⟩ := by
  have hq : ∀ c ∈ ['A', 'B'], isFactName c = true := by
    intro c hc
    simp only [List.mem_cons, List.not_mem_nil, or_false] at hc
    rcases hc with rfl | rfl <;> decide
  have hs : ∀ c ∈ ['A', 'B'],
      (Program.run [] ("A => B\n=A" ++ "\n?" ++ String.ofList [c] ++ "\n")).ending = .exit 0 := by
    intro c hc
    simp only [List.mem_cons, List.not_mem_nil, or_false] at hc
    rcases hc with rfl | rfl <;> decide +kernel
  exact ⟨hq, hs, run_queries_independent "A => B\n=A" 'A' ['B'] hq hs⟩

/-- A space inside the query line is no query: each of `A`, the space and `B` asked alone ends
normally, yet together they are refused. -/
theorem run_spaced_queries :
    (∀ c ∈ ['A', ' ', 'B'],
      (Program.run [] ("A => B\n=A" ++ "\n?" ++ String.ofList [c] ++ "\n")).ending = .exit 0) ∧
    Program.run [] ("A => B\n=A" ++ "\n?" ++ String.ofList ['A', ' ', 'B'] ++ "\n") =
      ⟨"('Invalid query:', '?A B')\n", "", .exit 1⟩ := by
  refine ⟨fun c hc => ?_, by decide +kernel⟩
  simp only [List.mem_cons, List.not_mem_nil, or_false] at hc
  rcases hc with rfl | rfl | rfl <;> decide +kernel

end Entail
