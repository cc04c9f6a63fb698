import Entail.Proofs.Independence

/-! The fact table of a rule book: every letter of its rules, atomic unless in a conclusion, and
the atomic ones settled by the initial facts. -/

namespace Entail

namespace FactTable

@[simp] theorem get_register (t : FactTable) (c d : Char) : (t.register c).get d = t.get d := by
  unfold register
  split
  · rfl
  · simp only [get, List.lookup_append]
    cases t.entries.lookup d with
    | some f => rfl
    | none =>
        simp only [List.lookup_cons, List.lookup_nil, Option.none_or]
        split <;> rfl

theorem mem_keys_register {t : FactTable} {c d : Char} :
    d ∈ (t.register c).keys ↔ d ∈ t.keys ∨ d = c := by
  unfold register
  split
  · rename_i hc
    exact ⟨.inl, fun h => h.elim id fun hd => hd ▸ hc⟩
  · simp [keys]

/-- A fold whose every step adds the letters `g a` to the table. -/
theorem mem_keys_foldl {α : Type} {f : FactTable → α → FactTable} {g : α → List Char}
    (hf : ∀ t a d, d ∈ (f t a).keys ↔ d ∈ t.keys ∨ d ∈ g a) (l : List α) (t : FactTable)
    (d : Char) : d ∈ (l.foldl f t).keys ↔ d ∈ t.keys ∨ d ∈ l.flatMap g := by
  induction l generalizing t with
  | nil => simp
  | cons a l ih => rw [List.foldl_cons, ih, hf, List.flatMap_cons, List.mem_append, or_assoc]

/-- A fold whose every step applies `k` to the facts of the letters `g a`, where applying `k` twice
is applying it once. -/
theorem get_foldl {α : Type} {f : FactTable → α → FactTable} {g : α → List Char}
    {k : Fact → Fact} (hk : ∀ x, k (k x) = k x)
    (hf : ∀ t a d, (f t a).get d = if d ∈ g a then k (t.get d) else t.get d) (l : List α)
    (t : FactTable) (d : Char) :
    (l.foldl f t).get d = if d ∈ l.flatMap g then k (t.get d) else t.get d := by
  induction l generalizing t with
  | nil => simp
  | cons a l ih =>
      rw [List.foldl_cons, ih, hf, List.flatMap_cons]
      by_cases ha : d ∈ g a <;> by_cases hl : d ∈ l.flatMap g <;> simp [ha, hl, hk]

theorem get_foldl_register (l : List Char) (t : FactTable) (d : Char) :
    (l.foldl register t).get d = t.get d := by
  induction l generalizing t with
  | nil => rfl
  | cons c l ih => rw [List.foldl_cons, ih, get_register]

theorem mem_keys_foldl_register {l : List Char} {t : FactTable} {d : Char} :
    d ∈ (l.foldl register t).keys ↔ d ∈ t.keys ∨ d ∈ l := by
  rw [mem_keys_foldl (g := fun c => [c]) fun _ _ _ => by rw [mem_keys_register, List.mem_singleton],
    List.flatMap_singleton']

/-- Registering a letter and changing its fact changes the fact of that letter alone. -/
theorem get_register_modify (t : FactTable) (c d : Char) (k : Fact → Fact) :
    ((t.register c).modify c k).get d = if d ∈ [c] then k (t.get d) else t.get d := by
  rw [get_modify, get_register]
  by_cases hdc : d = c
  · subst hdc
    simp [mem_keys_register]
  · simp [hdc]

theorem mem_keys_register_modify (t : FactTable) (c d : Char) (k : Fact → Fact) :
    d ∈ ((t.register c).modify c k).keys ↔ d ∈ t.keys ∨ d ∈ [c] := by
  rw [keys_modify, mem_keys_register, List.mem_singleton]

end FactTable

namespace Rule

/-- The letters a rule concludes. -/
def heads (r : Rule) : List Char := r.conclusion.filterMap Token.name?

theorem get_enter (t : FactTable) (premise conclusion : List Token) (d : Char) :
    (enter t premise conclusion).get d =
      if d ∈ conclusion.filterMap Token.name? then { t.get d with atomic := false } else t.get d := by
  rw [enter, FactTable.get_foldl (k := fun f => { f with atomic := false }) (fun _ => rfl)
    (fun t c d => FactTable.get_register_modify t c d _), List.flatMap_singleton',
    FactTable.get_foldl_register]

theorem mem_keys_enter {t : FactTable} {premise conclusion : List Token} {d : Char} :
    d ∈ (enter t premise conclusion).keys ↔
      d ∈ t.keys ∨ d ∈ premise.filterMap Token.name? ∨ d ∈ conclusion.filterMap Token.name? := by
  rw [enter, FactTable.mem_keys_foldl fun t c d =>
    FactTable.mem_keys_register_modify t c d fun f => { f with atomic := false },
    List.flatMap_singleton', FactTable.mem_keys_foldl_register, or_assoc]

/-- A rule that is read enters its own letters into the table. -/
theorem parse_eq_ok {t t' : FactTable} {line : String} {r : Rule}
    (h : parse t line = (t', .ok r)) : t' = enter t r.premise r.conclusion := by
  unfold parse at h
  rcases hs : Token.scanText line with e | tokens
  · simp [hs] at h
  · rcases hsp : split tokens with ⟨premise, _ | ⟨a, _ | ⟨c, cs⟩⟩⟩ <;>
      rcases premise with _ | ⟨p, ps⟩ <;> simp [hs, hsp] at h
    obtain ⟨rfl, rfl⟩ := h
    rfl

/-- Reading a rule line does the same to every table: it enters one premise and one conclusion,
and gives one rule or one fault. -/
theorem parse_eq_enter (line : String) :
    ∃ premise conclusion r, ∀ t, parse t line = (enter t premise conclusion, r) := by
  unfold parse
  cases Token.scanText line with
  | error e => exact ⟨[], [], .error e, fun _ => rfl⟩
  | ok tokens =>
    dsimp only
    generalize split tokens = parts
    obtain ⟨premise, after⟩ := parts
    -- the four shapes of a rule line, each with its outcome
    rcases premise with _ | ⟨p, ps⟩ <;> rcases after with _ | ⟨a, _ | ⟨c, cs⟩⟩
    all_goals exact ⟨_, _, _, fun _ => rfl⟩

/-- The letters a rule mentions, in its premise or its conclusion. -/
def letters (r : Rule) : List Char := (r.premise ++ r.conclusion).filterMap Token.name?

theorem mem_letters {r : Rule} {d : Char} :
    d ∈ r.letters ↔ d ∈ r.premise.filterMap Token.name? ∨ d ∈ r.heads := by
  rw [letters, List.filterMap_append, List.mem_append, heads]

theorem get_foldl_enter (rules : List Rule) (t : FactTable) (d : Char) :
    (rules.foldl (fun t r => enter t r.premise r.conclusion) t).get d =
      if d ∈ rules.flatMap heads then { t.get d with atomic := false } else t.get d :=
  FactTable.get_foldl (k := fun f => { f with atomic := false }) (fun _ => rfl)
    (fun t r d => get_enter t r.premise r.conclusion d) rules t d

theorem mem_keys_foldl_enter {rules : List Rule} {t : FactTable} {d : Char} :
    d ∈ (rules.foldl (fun t r => enter t r.premise r.conclusion) t).keys ↔
      d ∈ t.keys ∨ d ∈ rules.flatMap letters :=
  FactTable.mem_keys_foldl (fun _ r _ => by rw [mem_keys_enter, mem_letters, heads]) rules t d

end Rule

namespace RuleBook

theorem parseRules_eq_ok {t t' : FactTable} {lines : List String} {rules : List Rule}
    (h : parseRules t lines = .ok (t', rules)) :
    t' = rules.foldl (fun t r => Rule.enter t r.premise r.conclusion) t := by
  induction lines generalizing t rules with
  | nil =>
      simp only [parseRules, Except.ok.injEq, Prod.mk.injEq] at h
      obtain ⟨rfl, rfl⟩ := h
      rfl
  | cons line lines ih =>
      rcases hp : Rule.parse t line with ⟨t₁, _ | r⟩
      · simp [parseRules, hp] at h
      · rw [parseRules, hp] at h
        rcases hr : parseRules t₁ lines with e | ⟨t₂, rs⟩
        · simp [hr] at h
        · simp only [hr] at h
          cases h
          rw [ih hr, List.foldl_cons, ← Rule.parse_eq_ok hp]

theorem ofLines_eq_ok {lines : List String} {book : RuleBook} (h : ofLines lines = .ok book) :
    ∃ rest, parseRules .empty rest = .ok (book.facts, book.rules) := by
  unfold ofLines at h
  generalize lines.reverse = L at h
  rcases L with _ | ⟨query, _ | ⟨initial, rest⟩⟩
  · cases h
  · cases h
  · dsimp only at h
    generalize marked '?' query = mq at h
    generalize marked '=' initial = mi at h
    rcases mq with _ | queries
    · cases h
    · rcases mi with _ | given
      · cases h
      · rcases hr : parseRules .empty rest.reverse with e | ⟨facts, rules⟩
        · rw [hr] at h
          cases h
        · rw [hr] at h
          cases h
          exact ⟨_, hr⟩

/-- Reading a rule book enters its rules one by one into the empty table. -/
theorem facts_eq {lines : List String} {book : RuleBook} (h : ofLines lines = .ok book) :
    book.facts = book.rules.foldl (fun t r => Rule.enter t r.premise r.conclusion) .empty := by
  obtain ⟨rest, hr⟩ := ofLines_eq_ok h
  exact parseRules_eq_ok hr

/-- The table of a rule book: its letters, each unsettled, atomic unless a rule concludes it. -/
theorem get_facts {lines : List String} {book : RuleBook} (h : ofLines lines = .ok book)
    (d : Char) :
    book.facts.get d = { value := none, atomic := decide (d ∉ book.rules.flatMap Rule.heads) } := by
  rw [facts_eq h, Rule.get_foldl_enter]
  by_cases hd : d ∈ book.rules.flatMap Rule.heads <;> simp [hd, FactTable.get, FactTable.empty,
    Fact.fresh]

theorem mem_keys_facts {lines : List String} {book : RuleBook} (h : ofLines lines = .ok book)
    {d : Char} : d ∈ book.facts.keys ↔ d ∈ book.rules.flatMap Rule.letters := by
  rw [facts_eq h, Rule.mem_keys_foldl_enter]
  simp [FactTable.keys, FactTable.empty]

end RuleBook

namespace FactTable

theorem modify_of_not_mem {t : FactTable} {c : Char} (g : Fact → Fact) (h : c ∉ t.keys) :
    t.modify c g = t := by
  rcases t with ⟨entries, nodup⟩
  simp only [modify, FactTable.mk.injEq]
  conv_rhs => rw [← List.map_id entries]
  refine List.map_congr_left fun e he => ?_
  have hec : e.1 ≠ c := fun hec => h (hec ▸ List.mem_map_of_mem he)
  simp [hec]

theorem get_foldl_mark (I : List Char) (t : FactTable) (d : Char) :
    (I.foldl (fun t c => t.modify c fun _ => { value := some true, atomic := true }) t).get d =
      if d ∈ I ∧ d ∈ t.keys then { value := some true, atomic := true } else t.get d := by
  induction I generalizing t with
  | nil => simp
  | cons c I ih =>
      rw [List.foldl_cons, ih, keys_modify, get_modify]
      by_cases hdc : d = c
      · subst hdc
        by_cases hd : d ∈ t.keys <;> simp [hd]
      · by_cases hdI : d ∈ I <;> simp [hdc, hdI]

theorem keys_foldl_mark (I : List Char) (t : FactTable) :
    (I.foldl (fun t c => t.modify c fun _ => { value := some true, atomic := true }) t).keys =
      t.keys := by
  induction I generalizing t with
  | nil => rfl
  | cons c I ih => rw [List.foldl_cons, ih, keys_modify]

end FactTable

/-! ## Taking the initial facts -/

namespace Infer

/-- The reports for the initial letters a table lacks. -/
def unknownInitial (keys initial : List Char) : String :=
  String.join ((initial.filter (· ∉ keys)).map fun c =>
    "Initial fact " ++ c.toString ++ " doesn't exist in graph\n")

/-- Going through the initial letters with a step that marks a letter of the table true and
reports any other. -/
theorem run_forM_initial {f : Char → Infer PUnit}
    (hf : ∀ c (m : Memory), (f c).run m =
      .ok ⟨⟩ ⟨m.facts.modify c fun _ => { value := some true, atomic := true },
        if m.facts.contains c then m.written
        else m.written ++ ("Initial fact " ++ c.toString ++ " doesn't exist in graph") ++ "\n"⟩)
    (I : List Char) (m : Memory) :
    (I.forM f).run m = .ok ⟨⟩
      ⟨I.foldl (fun t c => t.modify c fun _ => { value := some true, atomic := true }) m.facts,
        m.written ++ unknownInitial m.facts.keys I⟩ := by
  induction I generalizing m with
  | nil => simp [unknownInitial]
  | cons c I ih =>
      simp only [List.forM, EStateM.run_bind, hf, ih, FactTable.keys_modify, List.foldl_cons]
      congr 2
      by_cases hc : c ∈ m.facts.keys
      · have hcon : m.facts.contains c = true := List.elem_eq_true_of_mem hc
        simp [unknownInitial, hcon, hc]
      · have hcon : m.facts.contains c = false := by simpa [FactTable.contains] using hc
        simp [unknownInitial, hcon, hc, String.append_assoc]

/-- Taking the initial facts: every atomic fact of the table is settled, true if it is initial and
false otherwise, and each initial letter the table lacks is reported. -/
theorem run_assume (I : List Char) (m : Memory) :
    ∃ t, (assume I).run m = .ok () ⟨t, m.written ++ unknownInitial m.facts.keys I⟩ ∧
      t.keys = m.facts.keys ∧ ∀ d ∈ m.facts.keys, (t.get d).seen =
        if d ∈ I then some (some true) else if (m.facts.get d).atomic then some (some false)
        else none := by
  simp only [assume, EStateM.run_bind, run_updateAll]
  rw [run_forM_initial]
  · dsimp only
    rw [FactTable.keys_modifyAll]
    refine ⟨_, rfl, by simp [FactTable.keys_foldl_mark], fun d hd => ?_⟩
    rw [FactTable.get_modifyAll _ _ _ (by simpa [FactTable.keys_foldl_mark] using hd),
      FactTable.get_foldl_mark, FactTable.get_modifyAll _ _ _ hd]
    by_cases hdI : d ∈ I
    · simp [hdI, hd, Fact.seen]
    · rcases m.facts.get d with ⟨v, _ | _⟩ <;> simp [hdI, Fact.seen]
  · intro c m
    simp only [run_table_bind]
    by_cases hc : m.facts.contains c = true
    · simp [hc]
    · have hk : c ∉ m.facts.keys := fun h => hc (List.elem_eq_true_of_mem h)
      simp [hc, FactTable.modify_of_not_mem _ hk]

end Infer

end Entail
