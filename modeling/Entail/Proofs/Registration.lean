import Entail.Proofs.History
import Entail.Proofs.Lexing

/-! The table that rule lines build: the letters of each line entered in the order they come, the
conclusion's marked derived, and every letter of every rule held in the table. -/

namespace Entail

open Text Infer

/-! ## Tables grow by first occurrences -/

namespace FactTable

theorem keys_register (t : FactTable) (c : Char) :
    (t.register c).keys = if c ∈ t.keys then t.keys else t.keys ++ [c] := by
  unfold register
  split <;> simp_all [keys]

/-- A list without repeats is its own list of first occurrences. -/
theorem eraseDups_of_nodup {l : List Char} (h : l.Nodup) : l.eraseDups = l := by
  induction l with
  | nil => rfl
  | cons a l ih =>
      obtain ⟨ha, hl⟩ := List.nodup_cons.mp h
      have hkeep : l.filter (fun b => !b == a) = l := by
        refine List.filter_eq_self.mpr fun b hb => ?_
        have hba : b ≠ a := fun hba => ha (hba ▸ hb)
        simpa using hba
      rw [List.eraseDups_cons, hkeep, ih hl]

/-- A letter put at the end of a list is a new first occurrence unless it occurred before. -/
theorem eraseDups_concat (ks : List Char) (c : Char) :
    (ks ++ [c]).eraseDups = if c ∈ ks then ks.eraseDups else ks.eraseDups ++ [c] := by
  rw [List.eraseDups_append]
  split <;> simp [List.removeAll, List.eraseDups_cons, *]

/-- Letters entered one after another, each as `register` enters it: the table's letters are the
first occurrences in its letters before, followed by the letters entered. -/
theorem keys_foldl_register {f : FactTable → Char → FactTable}
    (hf : ∀ t c, (f t c).keys = (t.register c).keys) (l : List Char) :
    ∀ (t : FactTable) (ks : List Char), t.keys = ks.eraseDups →
      (l.foldl f t).keys = (ks ++ l).eraseDups := by
  induction l with
  | nil =>
      intro t ks h
      rw [List.foldl_nil, List.append_nil, h]
  | cons c l ih =>
      intro t ks h
      rw [List.foldl_cons, ← List.singleton_append, ← List.append_assoc]
      refine ih (f t c) (ks ++ [c]) ?_
      rw [hf, keys_register, eraseDups_concat, h]
      simp only [List.mem_eraseDups]

end FactTable

theorem Except.eq_error_of_map {α β ε : Type} {f : α → β} {x : Except ε α} {e : ε}
    (h : f <$> x = .error e) : x = .error e := by
  cases x <;> simp_all [Functor.map, Except.map]

/-- A line that does not scan stops at a character that begins no token. -/
theorem Token.scan_error_invalid {cs : List Char} {e : Fault} (h : Token.scan cs = .error e) :
    ∃ c, e = .invalidToken c := by
  fun_induction Token.scan cs with
  | case1 => cases h
  | case2 rest ih => exact ih (Except.eq_error_of_map h)
  | case3 rest ih => exact ih (Except.eq_error_of_map h)
  | case4 c rest _ _ t _ ih => exact ih (Except.eq_error_of_map h)
  | case5 c rest _ _ _ =>
      cases h
      exact ⟨c, rfl⟩

namespace Rule

/-- Entering a premise and a conclusion: the table's letters stay in place, and each letter they
name that the table lacks follows, in the order the letters first come. -/
theorem keys_enter (t : FactTable) (premise conclusion : List Token) :
    (enter t premise conclusion).keys =
      (t.keys ++ (premise ++ conclusion).filterMap Token.name?).eraseDups := by
  have hstart : t.keys = t.keys.eraseDups := (FactTable.eraseDups_of_nodup t.nodup).symm
  have hpremise := FactTable.keys_foldl_register (fun _ _ => rfl) (premise.filterMap Token.name?)
    t _ hstart
  unfold enter
  rw [FactTable.keys_foldl_register (fun t c => FactTable.keys_modify _ _ _) _ _ _ hpremise,
    List.filterMap_append, List.append_assoc]

/-! ## The premise and the conclusion of a line -/

/-- Whether a token is no arrow. -/
def notArrow (t : Token) : Bool := t.arrow?.isNone

theorem notArrow_fact (c : Char) : notArrow (.fact c) = true := rfl

theorem afterArrow_snd (a : Arrow) (ts : List Token) :
    (afterArrow a ts).2 = ts.filter notArrow := by
  induction ts generalizing a with
  | nil => rfl
  | cons t ts ih =>
      rw [afterArrow]
      cases ht : t.arrow? with
      | some b => simp [ih, notArrow, ht]
      | none => simp [ih, notArrow, ht]

/-- The premise of a line is what comes before its first arrow. -/
theorem split_fst (ts : List Token) : (split ts).1 = ts.takeWhile notArrow := by
  induction ts with
  | nil => rfl
  | cons t ts ih =>
      rw [split]
      cases ht : t.arrow? with
      | some a => simp [notArrow, ht]
      | none => simp [ih, notArrow, ht]

/-- Leaving the arrows out of a line leaves the letters it names as they were. -/
theorem filterMap_name_filter (ts : List Token) :
    (ts.filter notArrow).filterMap Token.name? = ts.filterMap Token.name? := by
  rw [List.filterMap_filter]
  congr 1
  funext t
  rcases t with _ | c | _ | _
  all_goals try cases c
  all_goals rfl

/-- The conclusion of a line is what comes after its first arrow, arrows left out. -/
theorem split_conclusion (ts : List Token) :
    ((split ts).2.map Prod.snd).getD [] = (ts.dropWhile notArrow).filter notArrow := by
  induction ts with
  | nil => rfl
  | cons t ts ih =>
      rw [split]
      cases ht : t.arrow? with
      | some a => simp [afterArrow_snd, notArrow, ht]
      | none => simpa [notArrow, ht] using ih

/-- What reading a scanned line does to the table: it enters what comes before the first arrow as
the premise and what comes after as the conclusion. -/
theorem parse_fst_of_scan {t : FactTable} {line : String} {ts : List Token}
    (h : Token.scanText line = .ok ts) :
    (parse t line).1 =
      enter t (ts.takeWhile notArrow) ((ts.dropWhile notArrow).filter notArrow) := by
  unfold parse
  rw [h]
  dsimp only
  rw [← split_fst, ← split_conclusion]
  generalize split ts = parts
  obtain ⟨premise, after⟩ := parts
  rcases premise with _ | ⟨p, ps⟩ <;> rcases after with _ | ⟨a, _ | ⟨c, cs⟩⟩ <;> rfl

/-- The letters a scanned line leaves in the table: the table's letters in place, then each new
letter the line names, in the order they first come. -/
theorem parse_keys {t : FactTable} {line : String} {ts : List Token}
    (h : Token.scanText line = .ok ts) :
    (parse t line).1.keys = (t.keys ++ ts.filterMap Token.name?).eraseDups := by
  rw [parse_fst_of_scan h, keys_enter, List.filterMap_append, filterMap_name_filter,
    ← List.filterMap_append, List.takeWhile_append_dropWhile]

example : (Rule.parse (Rule.parse .empty "B => C").1 "C + A =>").1.keys = ['B', 'C', 'A'] := by
  decide +kernel

/-- The facts a scanned line leaves in the table: each letter after its first arrow is no longer
atomic, and no value changes. -/
theorem parse_get {t : FactTable} {line : String} {ts : List Token}
    (h : Token.scanText line = .ok ts) (d : Char) :
    (parse t line).1.get d =
      if Token.fact d ∈ ts.dropWhile notArrow then { t.get d with atomic := false }
      else t.get d := by
  have hafter : Token.fact d ∈ (ts.dropWhile notArrow).filter notArrow ↔
      Token.fact d ∈ ts.dropWhile notArrow := by
    simp [List.mem_filter, notArrow_fact]
  rw [parse_fst_of_scan h, get_enter]
  simp only [Token.mem_names, hafter]

theorem parse_of_scan_error {t : FactTable} {line : String} {e : Fault}
    (h : Token.scanText line = .error e) : parse t line = (t, .error e) := by
  unfold parse
  rw [h]

/-- What reading `line` does to a table `t`, leaving `t'`: a line that does not scan changes
nothing; a line that scans keeps the letters of `t` in place and appends each new letter it names
in the order they first come, and makes each letter after its first arrow not atomic, changing
nothing else. -/
structure Trace (line : String) (t t' : FactTable) : Prop where
  unscanned : ∀ e, Token.scanText line = .error e → t' = t
  keys : ∀ ts, Token.scanText line = .ok ts →
    t'.keys = t.keys ++ ((ts.filterMap Token.name?).removeAll t.keys).eraseDups
  get : ∀ ts, Token.scanText line = .ok ts → ∀ d,
    t'.get d = if Token.fact d ∈ ts.dropWhile notArrow then { t.get d with atomic := false }
      else t.get d

/-- Reading a line leaves its trace, whether the line is accepted or refused. -/
theorem parse_leaves_trace (t : FactTable) (line : String) : Trace line t (parse t line).1 :=
  ⟨fun _ h => by rw [parse_of_scan_error h],
    fun _ h => by
      have hkeys : t.keys.eraseDups = t.keys := FactTable.eraseDups_of_nodup t.nodup
      rw [parse_keys h, List.eraseDups_append, hkeys],
    fun _ h => parse_get h⟩

/-- Every refusal of a rule line is a bad value, which a session reports and gets over. -/
theorem parse_fault_kind {t : FactTable} {line : String} {e : Fault}
    (h : (parse t line).2 = .error e) : e.kind = .badValue := by
  unfold parse at h
  cases hs : Token.scanText line with
  | error e' =>
    rw [hs] at h
    cases h
    obtain ⟨c, rfl⟩ := Token.scan_error_invalid hs
    rfl
  | ok ts =>
    rw [hs] at h
    dsimp only at h
    generalize split ts = parts at h
    obtain ⟨premise, after⟩ := parts
    rcases premise with _ | ⟨p, ps⟩ <;> rcases after with _ | ⟨a, _ | ⟨c, cs⟩⟩ <;> cases h <;>
      rfl

end Rule

/-! ## A refused rule line in a session -/

namespace Session

variable {v : Bool} {s : Session}

/-- A line that a session reads as a rule: no command, and beginning with neither `=` nor `?`. -/
def RuleLine (line : String) : Prop :=
  ¬(line = "Q" ∨ line = "QUIT") ∧ line ≠ "FACTS" ∧ line ≠ "RULES" ∧ line ≠ "EXEC" ∧
    ∃ c cs, line.toList = c :: cs ∧ c ≠ '=' ∧ c ≠ '?'

/-- A rule line that reading refuses is reported, and the session goes on with the table that
reading the line left. -/
theorem step_refused {typed : String} {t : FactTable} {e : Fault} (hline : RuleLine (upper typed))
    (hp : Rule.parse s.facts (upper typed) = (t, .error e)) :
    s.step v typed = .next { s with facts := t } (e.message ++ "\n") := by
  obtain ⟨h₁, h₂, h₃, h₄, c, cs, hl, hc₁, hc₂⟩ := hline
  have hkind : e.kind = .badValue :=
    Rule.parse_fault_kind (show (Rule.parse s.facts (upper typed)).2 = .error e by rw [hp])
  rw [step]
  rw [if_neg h₁, if_neg h₂, if_neg h₃, if_neg h₄, hl]
  split
  · simp_all
  · simp_all
  · simp_all
  · rw [hp]
    exact if_pos hkind

end Session

/-- A rule line that a session refuses still leaves its trace in the table: the session reports
the refusal and goes on with the letters already there kept in place, each new letter the line
names appended in the order it first comes, and the letters after its first arrow no longer
atomic, every value kept. Only a line that does not scan leaves the table as it was. -/
theorem Session.refused_rule_leaves_trace {v : Bool} {s : Session} {typed : String} {e : Fault}
    (hline : Session.RuleLine (upper typed))
    (hrefused : (Rule.parse s.facts (upper typed)).2 = .error e) :
    s.step v typed = .next { s with facts := (Rule.parse s.facts (upper typed)).1 }
        (e.message ++ "\n") ∧
      Rule.Trace (upper typed) s.facts (Rule.parse s.facts (upper typed)).1 := by
  have hp : Rule.parse s.facts (upper typed) =
      ((Rule.parse s.facts (upper typed)).1, .error e) := by
    rw [← hrefused]
  exact ⟨Session.step_refused hline hp, Rule.parse_leaves_trace s.facts (upper typed)⟩

theorem Session.refused_rule_leaves_trace_sample :
    let s : Session :=
      { rules := [⟨[.fact 'B'], .implies, [.fact 'C']⟩], facts := (Rule.parse .empty "B => C").1 }
    Session.RuleLine (upper "c + a =>") ∧
      (Rule.parse s.facts (upper "c + a =>")).2 = .error (.emptyConclusion "C + A =>") ∧
      (s.step false "c + a =>" =
          .next { s with facts := (Rule.parse s.facts (upper "c + a =>")).1 }
            ((Fault.emptyConclusion "C + A =>").message ++ "\n") ∧
        Rule.Trace (upper "c + a =>") s.facts (Rule.parse s.facts (upper "c + a =>")).1) := by
  intro s
  have hup : upper "c + a =>" = "C + A =>" := by decide +kernel
  have hline : Session.RuleLine (upper "c + a =>") := by
    rw [hup]
    exact ⟨by decide, by decide, by decide, by decide, 'C', [' ', '+', ' ', 'A', ' ', '=', '>'],
      by decide, by decide, by decide⟩
  have href : (Rule.parse s.facts (upper "c + a =>")).2 = .error (.emptyConclusion "C + A =>") := by
    rw [hup]
    decide +kernel
  exact ⟨hline, href, Session.refused_rule_leaves_trace hline href⟩

/-- A rule line refused for its empty conclusion is not forgotten: the letter it names stays in
the table, so that a later exec answers it as a fact where a session without the line does not
know it. -/
theorem Session.refused_rule_remembered :
    (Rule.parse .empty "A =>").2 = .error (.emptyConclusion "A =>") ∧
      (Rule.parse .empty "A =>").1.keys = ['A'] ∧
      Session.run false {} ["A =>", "?A", "exec", "q"] =
        (["A =>: Empty RHS\n", "", "Q[A]: False\n", ""], none) ∧
      Session.run false {} ["?A", "exec", "q"] = (["", "Query is not understood: A\n", ""], none) :=
  ⟨by decide +kernel, by decide +kernel, by decide +kernel, by decide +kernel⟩

/-! ## Inference keeps the letters of the table -/

/-- A computation that, whenever it ends normally, leaves the letters of the table as they were. -/
def Infer.KeepsKeys {α : Type} (x : Infer α) : Prop :=
  ∀ ⦃m : Memory⦄ ⦃a : α⦄ ⦃m' : Memory⦄,
    x.run m = .ok a m' → m'.facts.keys = m.facts.keys

/-- One memory, twice, its table holding the letters `K`. -/
def Memory.Keyed (K : List Char) (m₁ m₂ : Memory) : Prop := m₁ = m₂ ∧ m₁.facts.keys = K

/-- Every step of inference keeps the letters of the table. -/
theorem Memory.keyed_coupling (K : List Char) : Memory.Coupling (Memory.Keyed K) where
  alike := by
    rintro m _ ⟨rfl, -⟩
    exact FactTable.Alike.refl _
  say := by
    rintro m _ line ⟨rfl, hK⟩
    exact ⟨rfl, hK⟩
  update := by
    rintro m _ c g ⟨rfl, hK⟩
    exact ⟨rfl, by rw [FactTable.keys_modify, hK]⟩
  updateAll := by
    rintro m _ g ⟨rfl, hK⟩
    exact ⟨rfl, by rw [FactTable.keys_modifyAll, hK]⟩

namespace Infer.KeepsKeys

/-- A computation that runs related to itself on every table keeps the letters of the table. -/
theorem of_related {α : Type} {x : Infer α}
    (h : ∀ K, Related (Memory.Keyed K) (fun _ => False) x x) : KeepsKeys x := by
  intro m a m' hx
  have hrun := h m.facts.keys ⟨rfl, rfl⟩
  rw [hx] at hrun
  rcases hrun.of_ok with ⟨m₂, -, -, hK⟩ | ⟨-, -, -, hF⟩
  · exact hK
  · exact hF.elim

theorem answer (inSession verbose : Bool) (rules : List Rule) (q : Char) :
    KeepsKeys (Infer.answer inSession verbose rules q) :=
  of_related fun K => Related.answer (Memory.keyed_coupling K) (fun _ => rfl)
    (Related.conclude (Memory.keyed_coupling K) inSession) verbose q

end Infer.KeepsKeys

/-! ## The letters of the rules are the facts of the table -/

namespace FactTable

/-- Every letter the rules name is in the table: the letter in a rule and the entry of the table
under it are one fact. -/
def Names (t : FactTable) (rules : List Rule) : Prop :=
  ∀ r ∈ rules, ∀ d ∈ r.letters, d ∈ t.keys

/-- Every letter the rules conclude is not atomic in the table. -/
def Derives (t : FactTable) (rules : List Rule) : Prop :=
  ∀ r ∈ rules, ∀ d ∈ r.heads, (t.get d).atomic = false

variable {t t' : FactTable} {rules : List Rule}

theorem Names.of_keys (h : t.Names rules) (hk : t'.keys = t.keys) : t'.Names rules :=
  fun r hr d hd => hk ▸ h r hr d hd

theorem Names.enter (h : t.Names rules) (premise conclusion : List Token) :
    (Rule.enter t premise conclusion).Names rules :=
  fun r hr d hd => Rule.mem_keys_enter.mpr (.inl (h r hr d hd))

theorem Derives.enter (h : t.Derives rules) (premise conclusion : List Token) :
    (Rule.enter t premise conclusion).Derives rules := by
  intro r hr d hd
  rw [Rule.get_enter]
  split
  · rfl
  · exact h r hr d hd

theorem names_append {r : Rule} :
    t.Names (rules ++ [r]) ↔ t.Names rules ∧ ∀ d ∈ r.letters, d ∈ t.keys := by
  simp [Names, or_imp, forall_and]

theorem derives_append {r : Rule} :
    t.Derives (rules ++ [r]) ↔
      t.Derives rules ∧ ∀ d ∈ r.heads, (t.get d).atomic = false := by
  simp [Derives, or_imp, forall_and]

end FactTable

/-- Reading a line into a table that holds the letters of some rules, and keeps the letters they
conclude derived, keeps both for those rules and for the rule read, if it is accepted. -/
theorem Rule.parse_keeps_names {t t' : FactTable} {rules : List Rule} {line : String}
    {res : Except Fault Rule} (hp : parse t line = (t', res)) :
    (t.Names rules → t'.Names (rules ++ res.toOption.toList)) ∧
      (t.Derives rules → t'.Derives (rules ++ res.toOption.toList)) := by
  obtain ⟨premise, conclusion, r₀, he⟩ := parse_eq_enter line
  have ht : t' = enter t premise conclusion := by
    rw [he] at hp
    exact (Prod.mk.inj hp).1.symm
  cases res with
  | error e =>
      subst ht
      exact ⟨fun h => by simpa [Except.toOption] using h.enter premise conclusion,
        fun h => by simpa [Except.toOption] using h.enter premise conclusion⟩
  | ok r =>
      -- an accepted rule is entered as it is read
      have hr : t' = enter t r.premise r.conclusion := parse_eq_ok hp
      refine ⟨fun h => FactTable.names_append.mpr ⟨ht ▸ h.enter _ _, fun d hd => ?_⟩,
        fun h => FactTable.derives_append.mpr ⟨ht ▸ h.enter _ _, fun d hd => ?_⟩⟩
      · rw [hr, mem_keys_enter]
        exact .inr (mem_letters.mp hd)
      · rw [hr, get_enter, if_pos (show d ∈ r.conclusion.filterMap Token.name? from hd)]

namespace Session

variable {v : Bool} {s : Session}

/-- An exec that goes on keeps the rules and the letters of the table. -/
theorem exec_keeps_keys {s' : Session} {w : String} (h : s.exec v = .next s' w) :
    s'.rules = s.rules ∧ s'.facts.keys = s.facts.keys := by
  unfold exec at h
  extract_lets act at h
  split at h
  · rename_i m hm
    cases h
    refine ⟨rfl, ?_⟩
    refine KeepsKeys.of_related (fun K => ?_) hm
    have hK := Memory.keyed_coupling K
    exact Related.report_then hK (fun _ => Related.bind (Related.assume hK _) fun _ =>
      Related.answerAll hK (fun _ => rfl) (Related.conclude hK true) v _) v
      fun _ _ ht => by rw [ht.showRules]
  · cases h

/-- What a line that the session goes on from can do: exec, leave the rules and the table alone,
or read a rule line, adding the rule if it is accepted. -/
theorem step_eq_next {typed : String} {s' : Session} {w : String}
    (h : s.step v typed = .next s' w) :
    (upper typed = "EXEC" ∧ s.exec v = .next s' w) ∨ (s'.facts = s.facts ∧ s'.rules = s.rules) ∨
      ∃ res, Rule.parse s.facts (upper typed) = (s'.facts, res) ∧
        s'.rules = s.rules ++ res.toOption.toList := by
  unfold step at h
  dsimp only at h
  -- a quit never goes on, so four cases are left: two displays, an exec, and the rest
  split_ifs at h with h₁ h₂ h₃ h₄
  · cases h
    exact .inr (.inl ⟨rfl, rfl⟩)
  · cases h
    exact .inr (.inl ⟨rfl, rfl⟩)
  · exact .inl ⟨h₄, h⟩
  · split at h
    · cases h
      exact .inr (.inl ⟨rfl, rfl⟩)
    · cases h
      exact .inr (.inl ⟨rfl, rfl⟩)
    · cases h
      exact .inr (.inl ⟨rfl, rfl⟩)
    · split at h
      · rename_i t r hp
        cases h
        exact .inr (.inr ⟨_, hp, rfl⟩)
      · rename_i t e hp
        split at h
        · cases h
          exact .inr (.inr ⟨_, hp, by simp [Except.toOption]⟩)
        · cases h

/-- A line keeps the letters of the rules in the table. -/
theorem step_names {typed : String} {s' : Session} {w : String} (h : s.step v typed = .next s' w)
    (hs : s.facts.Names s.rules) : s'.facts.Names s'.rules := by
  rcases step_eq_next h with ⟨-, hexec⟩ | ⟨hf, hr⟩ | ⟨res, hp, hr⟩
  · obtain ⟨hr, hk⟩ := exec_keeps_keys hexec
    rw [hr]
    exact hs.of_keys hk
  · rw [hf, hr]
    exact hs
  · rw [hr]
    exact (Rule.parse_keeps_names hp).1 hs

/-- A line other than `EXEC` keeps the letters the rules conclude not atomic. -/
theorem step_derives {typed : String} {s' : Session} {w : String} (h : s.step v typed = .next s' w)
    (hexec : upper typed ≠ "EXEC") (hs : s.facts.Derives s.rules) :
    s'.facts.Derives s'.rules := by
  rcases step_eq_next h with ⟨he, -⟩ | ⟨hf, hr⟩ | ⟨res, hp, hr⟩
  · exact absurd he hexec
  · rw [hf, hr]
    exact hs
  · rw [hr]
    exact (Rule.parse_keeps_names hp).2 hs

/-- The session after the lines typed, if it goes on through all of them. -/
def after (v : Bool) : Session → List String → Option Session
  | s, [] => some s
  | s, typed :: rest =>
    match s.step v typed with
    | .next s' _ => after v s' rest
    | _ => none

theorem after_cons_eq_some {typed : String} {rest : List String} {s' : Session}
    (h : after v s (typed :: rest) = some s') :
    ∃ s₁ w, s.step v typed = .next s₁ w ∧ after v s₁ rest = some s' := by
  rw [after] at h
  split at h
  · exact ⟨_, _, ‹_›, h⟩
  · cases h

/-- The session after some lines is the one that goes on with the lines that follow. -/
theorem run_append_of_after {L : List String} {s' : Session} (h : after v s L = some s') :
    ∃ ws, ∀ rest, run v s (L ++ rest) = (ws ++ (run v s' rest).1, (run v s' rest).2) := by
  induction L generalizing s with
  | nil =>
      cases h
      exact ⟨[], fun _ => rfl⟩
  | cons typed L ih =>
      obtain ⟨s₁, w, hstep, hrest⟩ := after_cons_eq_some h
      obtain ⟨ws, hws⟩ := ih hrest
      refine ⟨w :: ws, fun rest => ?_⟩
      rw [List.cons_append, run, hstep]
      dsimp only
      rw [hws]
      rfl

theorem names_after {L : List String} {s' : Session} (h : after v s L = some s')
    (hs : s.facts.Names s.rules) : s'.facts.Names s'.rules := by
  induction L generalizing s with
  | nil =>
      cases h
      exact hs
  | cons typed L ih =>
      obtain ⟨s₁, w, hstep, hrest⟩ := after_cons_eq_some h
      exact ih hrest (step_names hstep hs)

theorem derives_after {L : List String} {s' : Session} (h : after v s L = some s')
    (hL : ∀ l ∈ L, upper l ≠ "EXEC") (hs : s.facts.Derives s.rules) :
    s'.facts.Derives s'.rules := by
  induction L generalizing s with
  | nil =>
      cases h
      exact hs
  | cons typed L ih =>
      obtain ⟨s₁, w, hstep, hrest⟩ := after_cons_eq_some h
      exact ih hrest (fun l hl => hL l (List.mem_cons_of_mem _ hl))
        (step_derives hstep (hL typed List.mem_cons_self) hs)

end Session

/-- The letters of a rule are facts of the table, for a rule book and for a session. Reading a rule
book leaves every letter of its rules in its table, and every letter they conclude not atomic. A
session typed any lines, refused rule lines and execs included, holds every letter of its rules in
its table, and until its first exec every letter they conclude is not atomic. -/
theorem rule_letters_in_table :
    (∀ lines book, RuleBook.ofLines lines = .ok book →
      book.facts.Names book.rules ∧ book.facts.Derives book.rules) ∧
    ∀ v lines s, Session.after v {} lines = some s →
      s.facts.Names s.rules ∧ ((∀ l ∈ lines, upper l ≠ "EXEC") → s.facts.Derives s.rules) := by
  have hnames : ({} : Session).facts.Names ({} : Session).rules := by simp [FactTable.Names]
  have hderives : ({} : Session).facts.Derives ({} : Session).rules := by
    simp [FactTable.Derives]
  refine ⟨fun lines book h => ⟨fun r hr d hd => ?_, fun r hr d hd => ?_⟩, fun v lines s h =>
    ⟨Session.names_after h hnames, fun hL => Session.derives_after h hL hderives⟩⟩
  · exact (RuleBook.mem_keys_facts h).mpr (List.mem_flatMap.mpr ⟨r, hr, hd⟩)
  · have hh : d ∈ book.rules.flatMap Rule.heads := List.mem_flatMap.mpr ⟨r, hr, hd⟩
    simp [RuleBook.get_facts h, hh]

theorem rule_letters_in_table_sample :
    (∀ l ∈ ["B => A", "A =>", "?A"], upper l ≠ "EXEC") ∧
      ∃ s, Session.after false {} ["B => A", "A =>", "?A"] = some s ∧
        s.facts.Names s.rules ∧ s.facts.Derives s.rules := by
  have hL : ∀ l ∈ ["B => A", "A =>", "?A"], upper l ≠ "EXEC" := by
    simp only [List.mem_cons, List.not_mem_nil, or_false, forall_eq_or_imp, forall_eq]
    decide +kernel
  have hsome : (Session.after false {} ["B => A", "A =>", "?A"]).isSome := by decide +kernel
  obtain ⟨s, hs⟩ := Option.isSome_iff_exists.mp hsome
  obtain ⟨hnames, hderives⟩ := rule_letters_in_table.2 false _ s hs
  exact ⟨hL, s, hs, hnames, hderives hL⟩

end Entail
