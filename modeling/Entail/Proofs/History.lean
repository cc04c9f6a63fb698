import Entail.Proofs.Answers
import Entail.Proofs.Sessions

/-! What an exec leaves behind in a session: which facts are atomic, and nothing more once its
initial letters were atomic already. -/

namespace Entail

open Text Infer

/-! ## Tables that differ in their values only -/

/-- Two tables with the same letters in the same order, atomic under the same letters; their
values may differ. -/
structure FactTable.SameFlags (t₁ t₂ : FactTable) : Prop where
  keys : t₁.keys = t₂.keys
  atomic : ∀ c, (t₁.get c).atomic = (t₂.get c).atomic

namespace FactTable.SameFlags

variable {t₁ t₂ : FactTable}

theorem symm (h : SameFlags t₁ t₂) : SameFlags t₂ t₁ := ⟨h.keys.symm, fun c => (h.atomic c).symm⟩

theorem register (h : SameFlags t₁ t₂) (c : Char) : SameFlags (t₁.register c) (t₂.register c) := by
  refine ⟨?_, fun d => by simp only [get_register, h.atomic d]⟩
  have hk := h.keys
  unfold FactTable.register
  by_cases hc : c ∈ t₁.keys
  · rw [dif_pos hc, dif_pos (hk ▸ hc), hk]
  · rw [dif_neg hc, dif_neg (hk ▸ hc)]
    simp only [FactTable.keys] at hk ⊢
    simp [hk]

theorem modify (h : SameFlags t₁ t₂) (c : Char) {g : Fact → Fact}
    (hg : ∀ f₁ f₂ : Fact, f₁.atomic = f₂.atomic → (g f₁).atomic = (g f₂).atomic) :
    SameFlags (t₁.modify c g) (t₂.modify c g) := by
  refine ⟨by simp only [keys_modify, h.keys], fun d => ?_⟩
  rw [get_modify, get_modify, h.keys]
  split
  · exact hg _ _ (h.atomic d)
  · exact h.atomic d

theorem foldl {α : Type} {f : FactTable → α → FactTable}
    (hf : ∀ t₁ t₂ a, SameFlags t₁ t₂ → SameFlags (f t₁ a) (f t₂ a)) (l : List α)
    (h : SameFlags t₁ t₂) : SameFlags (l.foldl f t₁) (l.foldl f t₂) := by
  induction l generalizing t₁ t₂ with
  | nil => exact h
  | cons a l ih => exact ih (hf _ _ a h)

theorem enter (h : SameFlags t₁ t₂) (premise conclusion : List Token) :
    SameFlags (Rule.enter t₁ premise conclusion) (Rule.enter t₂ premise conclusion) :=
  foldl (fun _ _ c hc => (hc.register c).modify c fun _ _ _ => rfl) _
    (foldl (fun _ _ c hc => hc.register c) _ h)

end FactTable.SameFlags

/-- Inference sees a value for a fact exactly when it is atomic. -/
theorem Fact.atomic_eq_isSome_seen (f : Fact) : f.atomic = f.seen.isSome := by
  cases h : f.atomic <;> simp [Fact.seen, h]

/-- A table that looks the same as another has the same letters, atomic under the same letters. -/
theorem FactTable.SameFlags.of_view {t₁ t₂ : FactTable} (h : t₁.view = t₂.view) :
    SameFlags t₁ t₂ := by
  refine ⟨congrArg View.keys h, fun c => ?_⟩
  have hseen : (t₁.get c).seen = (t₂.get c).seen := congrFun (congrArg View.seen h) c
  rw [Fact.atomic_eq_isSome_seen, Fact.atomic_eq_isSome_seen, hseen]

/-! ## Taking the initial facts and answering -/

/-- Tables that differ in their values only take the same initial facts into the same view, and
report the same unknown letters. -/
theorem Infer.assume_sameFlags {t₁ t₂ : FactTable} (h : t₁.SameFlags t₂) (I : List Char)
    (w : String) :
    ∃ m₁ m₂, (assume I).run ⟨t₁, w⟩ = .ok () m₁ ∧ (assume I).run ⟨t₂, w⟩ = .ok () m₂ ∧
      m₁.view = m₂.view ∧ m₁.written = m₂.written := by
  obtain ⟨u₁, h₁, hk₁, hs₁⟩ := run_assume I ⟨t₁, w⟩
  obtain ⟨u₂, h₂, hk₂, hs₂⟩ := run_assume I ⟨t₂, w⟩
  dsimp only at hk₁ hk₂ hs₁ hs₂
  refine ⟨_, _, h₁, h₂, ?_, by simp only [h.keys]⟩
  simp only [Memory.view, FactTable.view, View.mk.injEq]
  refine ⟨by rw [hk₁, hk₂, h.keys], funext fun d => ?_⟩
  by_cases hd : d ∈ t₁.keys
  · rw [hs₁ d hd, hs₂ d (h.keys ▸ hd), h.atomic d]
  · rw [FactTable.get_of_not_mem (hk₁ ▸ hd), FactTable.get_of_not_mem (hk₂ ▸ h.keys ▸ hd)]

/-! ## Sessions that differ in their values only -/

/-- Two session states with the same rules, initial facts and queries, whose tables differ at
most in their values. -/
structure Session.Similar (s₁ s₂ : Session) : Prop where
  rules : s₁.rules = s₂.rules
  initial : s₁.initial = s₂.initial
  queries : s₁.queries = s₂.queries
  facts : s₁.facts.SameFlags s₂.facts

/-- What two similar sessions do with the same line: both end, both go on in similar states
after writing the same, or both fail. -/
inductive Session.Reply.Similar : Session.Reply → Session.Reply → Prop
  | quit : Similar .quit .quit
  | next {s₁ s₂ : Session} (w : String) (h : s₁.Similar s₂) : Similar (.next s₁ w) (.next s₂ w)
  | failed (w₁ w₂ : String) (e₁ e₂ : Fault) : Similar (.failed w₁ e₁) (.failed w₂ e₂)

namespace Session

variable {s₁ s₂ : Session}

theorem Similar.symm (h : s₁.Similar s₂) : s₂.Similar s₁ :=
  ⟨h.rules.symm, h.initial.symm, h.queries.symm, h.facts.symm⟩

theorem exec_ne_quit (s : Session) : s.exec false ≠ .quit := by
  unfold exec
  simp only [Bool.false_eq_true, if_false]
  generalize (assume s.initial.toList >>= fun _ => answerAll true false s.rules
    s.queries.toList).run ⟨s.facts, ""⟩ = r
  cases r <;> simp

/-- A quiet exec ends normally exactly when answering the queries, after taking the initial
facts, does; the session keeps the table that answering leaves. -/
theorem exec_eq_next_iff {s s' : Session} {w : String} :
    s.exec false = .next s' w ↔ ∃ m₀ m, (assume s.initial.toList).run ⟨s.facts, ""⟩ = .ok () m₀ ∧
      (answerAll true false s.rules s.queries.toList).run m₀ = .ok () m ∧
      s' = { s with facts := m.facts } ∧ w = m.written := by
  obtain ⟨m₀, hA⟩ : ∃ m₀, (assume s.initial.toList).run ⟨s.facts, ""⟩ = .ok () m₀ := by
    obtain ⟨t, hA, -⟩ := run_assume s.initial.toList ⟨s.facts, ""⟩
    exact ⟨_, hA⟩
  unfold exec
  simp only [Bool.false_eq_true, if_false, EStateM.run_bind, hA]
  constructor
  · intro h
    cases hans : (answerAll true false s.rules s.queries.toList).run m₀ with
    | error e m => simp [hans] at h
    | ok u m =>
      simp only [hans, Reply.next.injEq] at h
      exact ⟨_, m, rfl, hans, h.1.symm, h.2.symm⟩
  · rintro ⟨m₀, m, hA', hans, rfl, rfl⟩
    cases hA'
    rw [hans]

/-- An exec that ends normally in one of two similar sessions ends normally in the other, writes
the same, and leaves them similar. -/
theorem exec_next_of_similar (h : s₁.Similar s₂) {s₁' : Session} {w : String}
    (hexec : s₁.exec false = .next s₁' w) :
    ∃ s₂', s₂.exec false = .next s₂' w ∧ s₁'.Similar s₂' := by
  obtain ⟨m₁, m₂, hA₁, hA₂, hview, hw⟩ := assume_sameFlags h.facts s₁.initial.toList ""
  obtain ⟨m₀, m₁', hA, hans₁, rfl, rfl⟩ := exec_eq_next_iff.1 hexec
  rw [hA₁] at hA
  cases hA
  -- the twin run from the other table writes the same and keeps its view too
  have hvalued := assume_valued hA₁
  obtain ⟨hview₁, -, htwin⟩ := Steady.answerAll true s₁.rules _ hvalued hans₁
  obtain ⟨m₂', str, hans₂, hw₁, hw₂⟩ := htwin hview.symm
  have hview₂ := (Steady.answerAll true s₁.rules _ (hview ▸ hvalued) hans₂).1
  have hnext : s₂.exec false = .next { s₂ with facts := m₂'.facts } m₂'.written := by
    refine exec_eq_next_iff.2 ⟨m₂, m₂', ?_, ?_, rfl, rfl⟩
    · rw [← h.initial]
      exact hA₂
    · rw [← h.rules, ← h.queries]
      exact hans₂
  refine ⟨{ s₂ with facts := m₂'.facts }, ?_, h.rules, h.initial, h.queries, ?_⟩
  · rw [hnext, hw₂, hw₁, hw]
  · exact FactTable.SameFlags.of_view (by
      change m₁'.view = m₂'.view
      rw [hview₁, hview₂, hview])

/-- Two similar sessions exec alike. -/
theorem exec_similar (h : s₁.Similar s₂) : (s₁.exec false).Similar (s₂.exec false) := by
  cases h₁ : s₁.exec false with
  | quit => exact absurd h₁ (exec_ne_quit s₁)
  | next s₁' w =>
    obtain ⟨s₂', h₂, hs⟩ := exec_next_of_similar h h₁
    rw [h₂]
    exact .next w hs
  | failed w₁ e₁ =>
    cases h₂ : s₂.exec false with
    | quit => exact absurd h₂ (exec_ne_quit s₂)
    | next s₂' w =>
      -- the other session would then exec normally too
      obtain ⟨s₁', h₁', -⟩ := exec_next_of_similar h.symm h₂
      rw [h₁] at h₁'
      cases h₁'
    | failed w₂ e₂ => exact .failed w₁ w₂ e₁ e₂

/-- A line other than `FACTS` and `RULES` does alike in two similar sessions: what it is is read
off the line alone, a rule line enters the same into both tables, and an exec forgets values. -/
theorem step_similar (h : s₁.Similar s₂) {typed : String}
    (hshow : upper typed ≠ "FACTS" ∧ upper typed ≠ "RULES") :
    (s₁.step false typed).Similar (s₂.step false typed) := by
  unfold step
  dsimp only
  split_ifs with hquit hfacts hrules hexec
  · exact .quit
  · exact absurd hfacts hshow.1
  · exact absurd hrules hshow.2
  · exact exec_similar h
  · split
    · exact .next "" h
    · exact .next "" ⟨h.rules, rfl, h.queries, h.facts⟩
    · exact .next "" ⟨h.rules, h.initial, rfl, h.facts⟩
    · obtain ⟨premise, conclusion, r, hparse⟩ := Rule.parse_eq_enter (upper typed)
      rw [hparse, hparse]
      have hfacts := h.facts.enter premise conclusion
      cases r with
      | ok r => exact .next "" ⟨by rw [h.rules], h.initial, h.queries, hfacts⟩
      | error e =>
        dsimp only
        split
        · exact .next _ ⟨h.rules, h.initial, h.queries, hfacts⟩
        · exact .failed _ _ _ _

/-- An exec whose initial letters are atomic already changes no flag: it leaves the session
similar to what it was. -/
theorem exec_keeps_flags {s s' : Session} {w : String}
    (hatomic : ∀ c ∈ s.initial.toList, (s.facts.get c).atomic = true)
    (hexec : s.exec false = .next s' w) : s'.Similar s := by
  obtain ⟨t, hA, hkeys, hseen⟩ := run_assume s.initial.toList ⟨s.facts, ""⟩
  dsimp only at hkeys hseen
  obtain ⟨m₀, m, hA', hans, rfl, -⟩ := exec_eq_next_iff.1 hexec
  rw [hA] at hA'
  cases hA'
  -- answering keeps the view that taking the initial facts left
  have hflags : m.facts.SameFlags t :=
    .of_view (Steady.answerAll true s.rules _ (assume_valued hA) hans).1
  refine ⟨rfl, rfl, rfl, hflags.keys.trans hkeys, fun d => (hflags.atomic d).trans ?_⟩
  by_cases hd : d ∈ s.facts.keys
  · rw [Fact.atomic_eq_isSome_seen, hseen d hd]
    by_cases hI : d ∈ s.initial.toList
    · rw [if_pos hI, hatomic d hI, Option.isSome_some]
    · rw [if_neg hI]
      cases (s.facts.get d).atomic <;> rfl
  · rw [FactTable.get_of_not_mem (hkeys ▸ hd), FactTable.get_of_not_mem hd]

end Session

/-- Two runs of a session that write the same after each line, except perhaps after the last,
where both stop at a fault. -/
def Session.RunsAlike (r₁ r₂ : List String × Option Fault) : Prop :=
  r₁ = r₂ ∨ ∃ ws w₁ w₂ e₁ e₂, r₁ = (ws ++ [w₁], some e₁) ∧ r₂ = (ws ++ [w₂], some e₂)

namespace Session

theorem RunsAlike.cons {r₁ r₂ : List String × Option Fault} (h : RunsAlike r₁ r₂) (w : String) :
    RunsAlike (w :: r₁.1, r₁.2) (w :: r₂.1, r₂.2) := by
  rcases h with rfl | ⟨ws, w₁, w₂, e₁, e₂, rfl, rfl⟩
  · exact .inl rfl
  · exact .inr ⟨w :: ws, w₁, w₂, e₁, e₂, rfl, rfl⟩

/-- Two similar sessions typed the same lines, none of them `FACTS` or `RULES`, run alike. -/
theorem run_similar {s₁ s₂ : Session} (h : s₁.Similar s₂) {L : List String}
    (hL : ∀ l ∈ L, upper l ≠ "FACTS" ∧ upper l ≠ "RULES") :
    RunsAlike (run false s₁ L) (run false s₂ L) := by
  -- induction on the lines, the sessions similar after each line
  induction L generalizing s₁ s₂ with
  | nil => exact .inl rfl
  | cons l L ih =>
    have hstep := step_similar h (hL l List.mem_cons_self)
    simp only [run]
    generalize s₁.step false l = r₁ at hstep ⊢
    generalize s₂.step false l = r₂ at hstep ⊢
    cases hstep with
    | quit => exact .inl rfl
    | failed w₁ w₂ e₁ e₂ => exact .inr ⟨[], w₁, w₂, e₁, e₂, rfl, rfl⟩
    | next w hs => exact (ih hs fun l' hl' => hL l' (List.mem_cons_of_mem _ hl')).cons w

end Session

/-! ## An exec that leaves no trace -/

/-- After an exec whose initial letters are atomic already, the session goes on as if the exec
had not been typed: the lines after it, none of them `FACTS` or `RULES`, write what they write
without it, up to an exec that fails either way. The exec itself may fail, and then ends the
session. -/
theorem session_exec_leaves_no_trace {s : Session}
    (hatomic : ∀ c ∈ s.initial.toList, (s.facts.get c).atomic = true) {L : List String}
    (hL : ∀ l ∈ L, upper l ≠ "FACTS" ∧ upper l ≠ "RULES") :
    (∃ w e, Session.run false s ("exec" :: L) = ([w], some e)) ∨
      ∃ w ws e, Session.run false s ("exec" :: L) = (w :: ws, e) ∧
        Session.RunsAlike (ws, e) (Session.run false s L) := by
  simp only [Session.run, Session.step_exec]
  cases hexec : s.exec false with
  | quit => exact absurd hexec (Session.exec_ne_quit s)
  | failed w e => exact .inl ⟨w, e, rfl⟩
  | next s' w =>
    exact .inr ⟨w, _, _, rfl, Session.run_similar (Session.exec_keeps_flags hatomic hexec) hL⟩

theorem session_exec_leaves_no_trace_sample :
    let s : Session :=
      ⟨[⟨[.fact 'A'], .implies, [.fact 'B']⟩], "A", "B", Rule.enter .empty [.fact 'A'] [.fact 'B']⟩
    (∀ c ∈ s.initial.toList, (s.facts.get c).atomic = true) ∧
      (∀ l ∈ ["?AB", "exec", "q"], upper l ≠ "FACTS" ∧ upper l ≠ "RULES") ∧
      ((∃ w e, Session.run false s ["exec", "?AB", "exec", "q"] = ([w], some e)) ∨
        ∃ w ws e, Session.run false s ["exec", "?AB", "exec", "q"] = (w :: ws, e) ∧
          Session.RunsAlike (ws, e) (Session.run false s ["?AB", "exec", "q"])) := by
  -- the kernel does not evaluate a bounded quantifier over a list; spell the members out
  have hatomic : ∀ c ∈ "A".toList,
      ((Rule.enter .empty [.fact 'A'] [.fact 'B']).get c).atomic = true := by
    have hA : "A".toList = ['A'] := by decide +kernel
    simp only [hA, List.mem_singleton, forall_eq]
    decide +kernel
  have hL : ∀ l ∈ ["?AB", "exec", "q"], upper l ≠ "FACTS" ∧ upper l ≠ "RULES" := by
    simp only [List.mem_cons, List.not_mem_nil, or_false, forall_eq_or_imp, forall_eq]
    decide +kernel
  exact ⟨hatomic, hL, session_exec_leaves_no_trace hatomic hL⟩

/-- A given letter that a rule concludes does not leave the session as it was: it stays atomic,
the rule is no longer consulted, and a later exec reads `A` false where a fresh session reads it
true. -/
theorem session_exec_remembers_initial :
    Session.run false {} ["B => A", "=A", "?A", "exec", "=B", "exec", "q"] =
        (["", "", "", "Q[A]: True\n", "", "Q[A]: False\n", ""], none) ∧
      Session.run false {} ["B => A", "=B", "?A", "exec", "q"] =
        (["", "", "", "Q[A]: True\n", ""], none) :=
  ⟨by decide +kernel, by decide +kernel⟩

end Entail
