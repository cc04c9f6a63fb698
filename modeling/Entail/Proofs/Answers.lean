import Entail.Proofs.Resolution

/-! A run on a stratified rule book of implications answers each query with its value in the
perfect model, and ends normally. -/

namespace Entail

open Infer

theorem FactTable.get_of_not_mem {t : FactTable} {d : Char} (h : d ∉ t.keys) : t.get d = .fresh := by
  have hl : t.entries.lookup d = none := by
    cases hd : t.entries.lookup d with
    | none => rfl
    | some f => exact absurd ((isSome_lookup t d).mp (by simp [hd])) h
  simp [get, hl]

theorem Infer.unknownInitial_congr {K L : List Char} (I : List Char) (h : ∀ d, d ∈ K ↔ d ∈ L) :
    unknownInitial K I = unknownInitial L I := by
  have hf : I.filter (· ∉ K) = I.filter (· ∉ L) := List.filter_congr fun d _ => by simp [h d]
  rw [unknownInitial, hf, unknownInitial]

namespace RuleBook

variable {lines : List String} {book : RuleBook}

/-- Once the initial facts are taken, the table of a rule book shows the initial view. -/
theorem view_after_assume (hbook : ofLines lines = .ok book) {t : FactTable} (w : String)
    (hkeys : t.keys = book.facts.keys)
    (hseen : ∀ d ∈ book.facts.keys, (t.get d).seen = if d ∈ book.initial then some (some true)
      else if (book.facts.get d).atomic then some (some false) else none) :
    (⟨t, w⟩ : Memory).view = View.initial t.keys book.initial (book.rules.flatMap Rule.heads) := by
  simp only [Memory.view, FactTable.view, View.initial, View.mk.injEq, true_and]
  funext d
  by_cases hd : d ∈ t.keys
  · rw [if_pos hd, hseen d (hkeys ▸ hd), get_facts hbook]
    by_cases hH : d ∈ book.rules.flatMap Rule.heads <;> simp [hH]
  · rw [if_neg hd, FactTable.get_of_not_mem hd]
    rfl

end RuleBook

/-- Answering a query from the initial view: a letter of the table gets its value in the computed
model after the skip reports of its resolution, and any other letter is not understood. -/
theorem answer_from_initial {rules : List Rule} {I : List Char} {m₀ : Memory}
    (hres : ∀ q ∈ m₀.facts.keys,
      Succeeds m₀.view (resolve false rules false m₀.facts.keys q) fun _ => True)
    (q : Char) : ∃ k m', (answer false false rules q).run m₀ = .ok () m' ∧
      m'.written = m₀.written ++ if q ∈ m₀.facts.keys then
        skipReports k ++ "Q[" ++ q.toString ++ "]: " ++ boolText (computedModel rules I m₀ q) ++ "\n"
      else "Query is not understood: " ++ q.toString ++ "\n" := by
  simp only [answer, run_table_bind]
  by_cases hq : q ∈ m₀.facts.keys
  · obtain ⟨r, m', hr, -, ⟨k, hk⟩, -⟩ := hres q hq m₀ rfl
    have hcon : m₀.facts.contains q = true := List.elem_eq_true_of_mem hq
    refine ⟨k, { m' with written := m'.written ++ ("Q[" ++ q.toString ++ "]: " ++
      boolText (r.getD false)) ++ "\n" }, ?_, ?_⟩
    · rw [if_pos hcon, EStateM.run_bind, hr]
      rfl
    · rw [if_pos hq, computedModel, if_pos hq, hr]
      simp only [hk, String.append_assoc]
  · have hcon : m₀.facts.contains q = false := by simpa [FactTable.contains] using hq
    refine ⟨0, { m₀ with written := m₀.written ++ ("Query is not understood: " ++ q.toString) ++
      "\n" }, ?_, ?_⟩
    · rw [if_neg (by simp [hcon])]
      rfl
    · rw [if_neg hq]
      simp only [String.append_assoc]

/-- A run on the text of a rule book of implications that conclude a letter or a conjunction of
two, with well-formed premises free of double negation and stratified clauses: the clauses have
exactly one perfect model, and the run reports the initial letters no rule mentions, then answers
each query a rule mentions with its value in that model, after one report for each rule that
resolution skips, and ends normally. -/
theorem run_perfect_model {text : String} {book : RuleBook}
    (hbook : RuleBook.ofLines (RuleBook.cleanLines text) = .ok book)
    (hfrag : ∀ r ∈ book.rules, r.InFragment) (hstrat : (Rule.clauses book.rules).Stratified) :
    ∃ M, IsPerfectModel (Rule.clauses book.rules) {a | a ∈ book.initial} M ∧
      (∀ M', IsPerfectModel (Rule.clauses book.rules) {a | a ∈ book.initial} M' → M' = M) ∧
      ∃ k : Char → ℕ, Program.run [] text =
        ⟨unknownInitial (book.rules.flatMap Rule.letters) book.initial ++
          String.join (book.queries.map fun q =>
            if q ∈ book.rules.flatMap Rule.letters then
              skipReports (k q) ++ "Q[" ++ q.toString ++ "]: " ++ boolText (M q) ++ "\n"
            else "Query is not understood: " ++ q.toString ++ "\n"), "", .exit 0⟩ := by
  obtain ⟨t, hrun, hkeys, hseen⟩ := run_assume book.initial ⟨book.facts, ""⟩
  dsimp only at hrun hkeys hseen
  set m₀ : Memory := ⟨t, "" ++ unknownInitial book.facts.keys book.initial⟩ with hm₀def
  have hL : ∀ d, d ∈ m₀.facts.keys ↔ d ∈ book.rules.flatMap Rule.letters := fun d => by
    rw [show m₀.facts.keys = book.facts.keys from hkeys]
    exact RuleBook.mem_keys_facts hbook
  have hK : ∀ r ∈ book.rules, ∀ d ∈ r.letters, d ∈ m₀.facts.keys :=
    fun r hr d hd => (hL d).mpr (List.mem_flatMap.mpr ⟨r, hr, hd⟩)
  have hm₀ : m₀.view = View.initial m₀.facts.keys book.initial (book.rules.flatMap Rule.heads) :=
    RuleBook.view_after_assume hbook _ hkeys hseen
  obtain ⟨ℓ, hℓ, hℓneg⟩ := hstrat.exists_level m₀.facts.keys.toFinset fun x y hxy => by
    obtain ⟨φ, hP, hy⟩ := hxy
    obtain ⟨r, hr, hyr⟩ := Rule.mem_letters_of_clause hP hy
    exact List.mem_toFinset.mpr (hK r hr y hyr)
  have hp : Prepared book.rules book.initial m₀ ℓ := ⟨hfrag, hK, hm₀, hstrat, hℓ, hℓneg⟩
  have hperfect := computedModel_perfect hp
  refine ⟨computedModel book.rules book.initial m₀, hperfect,
    fun M' hM' => IsPerfectModel.unique hℓ hℓneg hM' hperfect, ?_⟩
  -- each query writes its own block from the initial view
  have hans := answer_from_initial (I := book.initial) (fun q _ =>
    (resolve_from_initial hp q).mono fun _ _ => trivial)
  choose k m' hrun' hw using hans
  have hall : ∀ q ∈ book.queries, ∃ mq, (answer false false book.rules q).run m₀ = .ok () mq ∧
      mq.written = m₀.written ++ if q ∈ m₀.facts.keys then
        skipReports (k q) ++ "Q[" ++ q.toString ++ "]: " ++
          boolText (computedModel book.rules book.initial m₀ q) ++ "\n"
      else "Query is not understood: " ++ q.toString ++ "\n" :=
    fun q _ => ⟨m' q, hrun' q, hw q⟩
  obtain ⟨M, hM, hw'⟩ := answerAll_of_answer (assume_valued hrun) hall m₀ rfl
  have hwritten : m₀.written = unknownInitial (book.rules.flatMap Rule.letters) book.initial := by
    rw [hm₀def, String.empty_append]
    exact unknownInitial_congr book.initial fun d => RuleBook.mem_keys_facts hbook
  refine ⟨k, ?_⟩
  simp only [Program.run_nil, RuleBook.answerText, hbook, RuleBook.answerAll_quiet,
    EStateM.run_bind, hrun, hM]
  rw [hw', hwritten]
  simp only [hL]

theorem run_perfect_model_sample :
    ∃ book, RuleBook.ofLines (RuleBook.cleanLines "A => B\nB + C => D\n=AC\n?D\n") = .ok book ∧
      (∀ r ∈ book.rules, r.InFragment) ∧ (Rule.clauses book.rules).Stratified ∧
      ∃ M, IsPerfectModel (Rule.clauses book.rules) {a | a ∈ book.initial} M ∧
        (∀ M', IsPerfectModel (Rule.clauses book.rules) {a | a ∈ book.initial} M' → M' = M) ∧
        ∃ k : Char → ℕ, Program.run [] "A => B\nB + C => D\n=AC\n?D\n" =
          ⟨unknownInitial (book.rules.flatMap Rule.letters) book.initial ++
            String.join (book.queries.map fun q =>
              if q ∈ book.rules.flatMap Rule.letters then
                skipReports (k q) ++ "Q[" ++ q.toString ++ "]: " ++ boolText (M q) ++ "\n"
              else "Query is not understood: " ++ q.toString ++ "\n"), "", .exit 0⟩ := by
  have hread : (RuleBook.ofLines (RuleBook.cleanLines "A => B\nB + C => D\n=AC\n?D\n")).map
      RuleBook.rules = .ok [⟨[.fact 'A'], .implies, [.fact 'B']⟩,
        ⟨[.fact 'B', .op .and, .fact 'C'], .implies, [.fact 'D']⟩] := by
    decide +kernel
  cases hb : RuleBook.ofLines (RuleBook.cleanLines "A => B\nB + C => D\n=AC\n?D\n") with
  | error e =>
      rw [hb] at hread
      cases hread
  | ok book =>
      rw [hb] at hread
      have hrules := Except.ok.inj hread
      have hfrag : ∀ r ∈ book.rules, r.InFragment := by
        rw [hrules]
        intro r hr
        simp only [List.mem_cons, List.not_mem_nil, or_false] at hr
        rcases hr with rfl | rfl
        · exact ⟨rfl, ⟨.atom 'A', .atom rfl⟩, by decide, .inl ⟨'B', rfl⟩⟩
        · exact ⟨rfl, ⟨.bin .conj (.atom 'B') (.atom 'C'),
            @Formula.Reads.bin 0 [.fact 'B'] [.fact 'C'] _ _ .conj (Nat.zero_le _) (.atom rfl)
              (.atom rfl)⟩, by decide, .inl ⟨'D', rfl⟩⟩
      have hstrat : (Rule.clauses book.rules).Stratified := by
        refine Rule.stratified_of_positive ?_
        rw [hrules]
        intro r hr
        simp only [List.mem_cons, List.not_mem_nil, or_false] at hr
        rcases hr with rfl | rfl <;> decide
      exact ⟨book, rfl, hfrag, hstrat, run_perfect_model hb hfrag hstrat⟩

/-- Read with every rule kept, a rule whose premise mentions its own conclusion still derives it,
but resolution skips that rule: "A | G => G" with "A" initial makes "G" true in the perfect model of
all the rules, and the run answers false. -/
theorem run_skips_self_premise :
    Program.run [] "A | G => G\n=A\n?G\n" = ⟨"Recursion attempted\nQ[G]: False\n", "", .exit 0⟩ ∧
      ∀ book, RuleBook.ofLines (RuleBook.cleanLines "A | G => G\n=A\n?G\n") = .ok book →
        ∀ M, IsPerfectModel (Rule.program book.rules) {a | a ∈ book.initial} M → M 'G' = true := by
  refine ⟨by decide +kernel, fun book hb M hM => ?_⟩
  have hread : (RuleBook.ofLines (RuleBook.cleanLines "A | G => G\n=A\n?G\n")).map
      (fun b => (b.rules, b.initial)) =
        .ok ([⟨[.fact 'A', .op .or, .fact 'G'], .implies, [.fact 'G']⟩], ['A']) := by
    decide +kernel
  rw [hb] at hread
  obtain ⟨hrules, hinit⟩ := Prod.mk.inj (Except.ok.inj hread)
  have hA : 'A' ∈ (Rule.program book.rules).derived {a | a ∈ book.initial} M :=
    Program.mem_derived.mpr (.inl (by simp [hinit]))
  have hreads : Formula.Reads 0 [.fact 'A', .op .or, .fact 'G'] (.bin .disj (.atom 'A') (.atom 'G')) :=
    @Formula.Reads.bin 0 [.fact 'A'] [.fact 'G'] _ _ .disj (Nat.zero_le _) (.atom rfl) (.atom rfl)
  rw [hM]
  refine Program.mem_derived.mpr (.inr ⟨.bin .disj (.atom 'A') (.atom 'G'),
    ⟨⟨[.fact 'A', .op .or, .fact 'G'], .implies, [.fact 'G']⟩, ?_, hreads, ?_⟩, Or.inl hA⟩)
  · rw [hrules]
    exact List.mem_singleton_self _
  · simp [Rule.heads]

end Entail
