import Entail.Proofs.Shunting
import Entail.Infer

/-! The stack machine runs the postfix program of a formula as the formula. -/

namespace Entail

open Infer

/-! ## The text of an expression -/

/-- The tokens of the expression language: capital letters, parentheses, `!`, `+`, `|`, `^`. -/
def Token.inExpression : Token → Bool
  | .fact c => isFactName c
  | .op c => c == .not || c == .and || c == .or || c == .xor
  | .openParen | .closeParen => true

/-- The text that spells a list of tokens. -/
def Token.spell (ts : List Token) : String := String.join (ts.map Token.text)

/-- A character that forms a token on its own and begins no arrow scans as that token. -/
theorem Token.scan_cons {c : Char} {t : Token} (h1 : c ≠ '<') (h2 : c ≠ '=')
    (ht : Token.ofChar? c = some t) (rest : List Char) :
    Token.scan (c :: rest) = (t :: ·) <$> Token.scan rest := by
  rw [Token.scan.eq_4 c rest (fun _ h _ => h1 h) (fun _ h _ => h2 h), ht]

/-- Each token of the expression language is written as one character that scans back to it. -/
theorem Token.text_char {t : Token} (h : t.inExpression = true) :
    ∃ ch, t.text.toList = [ch] ∧ ch ≠ '<' ∧ ch ≠ '=' ∧ Token.ofChar? ch = some t := by
  cases t with
  | fact c =>
      simp only [Token.inExpression, isFactName, Bool.and_eq_true, decide_eq_true_eq] at h
      have hne : ∀ d : Char, ¬ ('A' ≤ d ∧ d ≤ 'Z') → c ≠ d := by
        rintro d hd rfl
        exact hd h
      refine ⟨c, by simp [Token.text, Char.toString_eq_singleton], hne _ (by decide),
        hne _ (by decide), ?_⟩
      simp [Token.ofChar?, hne '(' (by decide), hne ')' (by decide), hne '!' (by decide),
        hne '+' (by decide), hne '|' (by decide), hne '^' (by decide), hne '=' (by decide),
        isFactName, h.1, h.2]
  | op c =>
      cases c <;> simp [Token.inExpression] at h <;> exact ⟨_, rfl, by decide, by decide, rfl⟩
  | openParen => exact ⟨'(', rfl, by decide, by decide, rfl⟩
  | closeParen => exact ⟨')', rfl, by decide, by decide, rfl⟩

/-- The text that spells tokens of the expression language scans back to them. -/
theorem Token.scan_spell {ts : List Token} (h : ∀ t ∈ ts, t.inExpression = true) :
    Token.scan (Token.spell ts).toList = .ok ts := by
  induction ts with
  | nil => rfl
  | cons t ts ih =>
      obtain ⟨ch, hch, h1, h2, hof⟩ := Token.text_char (h t (List.mem_cons_self ..))
      have hts := ih fun u hu => h u (List.mem_cons_of_mem _ hu)
      simp only [Token.spell, List.map_cons, String.join_cons, String.toList_append, hch,
        List.singleton_append] at hts ⊢
      rw [Token.scan_cons h1 h2 hof, hts]
      rfl

theorem Formula.Reads.inExpression {p : Nat} {ts : List Token} {f : Formula}
    (h : Formula.Reads p ts f) : ∀ t ∈ ts, t.inExpression = true := by
  induction h with
  | atom hc => simpa [Token.inExpression] using hc
  | paren _ ih =>
      intro t ht
      simp only [List.mem_cons, List.mem_append, List.not_mem_nil, or_false] at ht
      rcases ht with rfl | ht | rfl
      · rfl
      · exact ih t ht
      · rfl
  | neg _ ih =>
      intro t ht
      rcases List.mem_cons.mp ht with rfl | ht
      · rfl
      · exact ih t ht
  | bin o _ _ _ ihl ihr =>
      intro t ht
      simp only [List.mem_append, List.mem_cons] at ht
      rcases ht with ht | rfl | ht
      · exact ihl t ht
      · cases o <;> rfl
      · exact ihr t ht

/-! ## The stack machine on the program of a formula -/

/-- The operand that the program of a formula leaves on the stack, its letters resolved from left
to right by `R`; a letter that resolves to nothing is set false in the table. -/
def Formula.operand (R : Char → Infer (Option Bool)) : Formula → Infer Operand
  | .atom c => do
    match ← R c with
    | some b => pure (.known b)
    | none =>
      update c fun f => { f with value := some false }
      pure (.unsettled c)
  | .neg a => do
    let x ← a.operand R
    pure (.known (!x.truth))
  | .bin o a b => do
    let x ← a.operand R
    let y ← b.operand R
    pure (.known (o.eval x.truth y.truth))

theorem Postfix.run_unary (R : Char → Infer (Option Bool)) {c : Connective}
    (hc : c.isUnary = true) (x : Operand) (stack : List Operand) (rest : Postfix) :
    Postfix.run R (x :: stack) (.apply c :: rest) = Postfix.run R (.known (!x.truth) :: stack) rest := by
  cases stack with
  | nil => simp [Postfix.run.eq_5, hc]
  | cons y below => simp [Postfix.run.eq_6, hc]

theorem Postfix.run_binary (R : Char → Infer (Option Bool)) {c : Connective}
    (hc : c.isUnary = false) (x y : Operand) (below : List Operand) (rest : Postfix) :
    Postfix.run R (x :: y :: below) (.apply c :: rest) =
      Postfix.run R (.known (c.combine y.truth x.truth) :: below) rest := by
  simp [Postfix.run.eq_6, hc]

/-- Running the program of a formula pushes its operand, whatever the stack holds and whatever
code follows. -/
theorem Postfix.run_code (R : Char → Infer (Option Bool)) (f : Formula) (stack : List Operand)
    (rest : Postfix) :
    Postfix.run R stack (f.code ++ rest) = f.operand R >>= fun x => Postfix.run R (x :: stack) rest := by
  induction f generalizing stack rest with
  | atom c =>
      simp only [Formula.code, List.singleton_append, Formula.operand, bind_assoc]
      rw [Postfix.run]
      congr 1
      funext r
      cases r <;> simp
  | neg a ih =>
      simp only [Formula.code, List.append_assoc, List.singleton_append, ih, Formula.operand,
        bind_assoc, pure_bind]
      congr 1
      funext x
      exact Postfix.run_unary R rfl x stack rest
  | bin o a b iha ihb =>
      simp only [Formula.code, List.append_assoc, List.singleton_append, iha, ihb, Formula.operand,
        bind_assoc, pure_bind]
      congr 1
      funext x
      congr 1
      funext y
      simp [Postfix.run_binary]

/-- When every letter of a formula resolves to the value `ν` gives it and leaves the memory alone,
the formula's operand is its value and the memory stays as it was. -/
theorem Formula.operand_of_values {R : Char → Infer (Option Bool)} {ν : Char → Bool} {m : Memory}
    {f : Formula} (hR : ∀ c ∈ f.letters, (R c).run m = .ok (some (ν c)) m) :
    (f.operand R).run m = .ok (.known (f.eval ν)) m := by
  induction f with
  | atom c =>
      have hc := hR c (by simp [Formula.letters])
      simp [Formula.operand, hc, Formula.eval]
  | neg a ih =>
      have ha := ih fun c hc => hR c (by simpa [Formula.letters] using hc)
      simp only [Formula.operand, EStateM.run_bind, ha, EStateM.run_pure, Formula.eval,
        Operand.truth]
  | bin o a b iha ihb =>
      have ha := iha fun c hc => hR c (by simp [Formula.letters, hc])
      have hb := ihb fun c hc => hR c (by simp [Formula.letters, hc])
      simp only [Formula.operand, EStateM.run_bind, ha, hb, EStateM.run_pure, Formula.eval,
        Operand.truth]

/-- An atomic fact still under resolution resolves to its value, and nothing changes. -/
theorem Infer.resolve_atomic {inSession : Bool} {rules : List Rule} {unvisited : List Char}
    {c : Char} {m : Memory} (hc : c ∈ unvisited) (ha : (m.facts.get c).atomic = true) :
    (resolve inSession rules false unvisited c).run m = .ok (m.facts.get c).value m := by
  rw [resolve]
  simp [hc, ha, table]

theorem Infer.run_throw {α : Type} (e : Fault) (m : Memory) : (throw e : Infer α).run m = .error e m :=
  rfl

/-- When each letter the code pushes resolves to a value and leaves the memory alone, the stack
machine ends either with a value, the stack and the code together weighing one, or with a bad
value. -/
theorem Postfix.run_result {R : Char → Infer (Option Bool)} {ν : Char → Bool} {m : Memory}
    (stack : List Operand) (code : Postfix)
    (hR : ∀ c ∈ code.filterMap Instr.name?, (R c).run m = .ok (some (ν c)) m) :
    (∃ v, (Postfix.run R stack code).run m = .ok v m ∧
      (stack.length : Int) + (code.map Instr.weight).sum = 1) ∨
    (∃ e, (Postfix.run R stack code).run m = .error e m ∧ e.kind = .badValue) := by
  induction code generalizing stack with
  | nil =>
      -- the run ends: one operand left is the value, none or several is a fault
      rcases stack with _ | ⟨x, _ | ⟨y, below⟩⟩
      · exact .inr ⟨_, by rw [Postfix.run.eq_2 _ _ (by simp), Infer.run_throw], rfl⟩
      · exact .inl ⟨x.truth, by simp [Postfix.run.eq_1], by simp⟩
      · exact .inr ⟨_, by rw [Postfix.run.eq_2 _ _ (by simp), Infer.run_throw], rfl⟩
  | cons i rest ih =>
      cases i with
      | push c =>
          have hc := hR c (by simp [Instr.name?])
          have hrest : ∀ d ∈ rest.filterMap Instr.name?, (R d).run m = .ok (some (ν d)) m :=
            fun d hd => hR d (by simp [Instr.name?, hd])
          rcases ih (.known (ν c) :: stack) hrest with ⟨v, hv, hw⟩ | ⟨e, he, hk⟩
          · refine .inl ⟨v, by simp [Postfix.run.eq_3, hc, hv], ?_⟩
            simp only [List.length_cons, List.map_cons, List.sum_cons, Instr.weight] at hw ⊢
            omega
          · exact .inr ⟨e, by simp [Postfix.run.eq_3, hc, he], hk⟩
      | apply c =>
          have hrest : ∀ d ∈ rest.filterMap Instr.name?, (R d).run m = .ok (some (ν d)) m :=
            fun d hd => hR d (by simpa [List.filterMap_cons, Instr.name?] using hd)
          cases stack with
          | nil => exact .inr ⟨_, by rw [Postfix.run.eq_4, Infer.run_throw], rfl⟩
          | cons x below =>
              cases hu : c.isUnary with
              | true =>
                  rw [Postfix.run_unary R hu]
                  rcases ih (.known (!x.truth) :: below) hrest with ⟨v, hv, hw⟩ | ⟨e, he, hk⟩
                  · refine .inl ⟨v, hv, ?_⟩
                    simp [Instr.weight, Connective.weight, hu] at hw ⊢
                    omega
                  · exact .inr ⟨e, he, hk⟩
              | false =>
                  cases below with
                  | nil =>
                      exact .inr ⟨.oneOperand c (x.display m.facts),
                        by simp [Postfix.run.eq_5, hu, Infer.table, Infer.run_throw], rfl⟩
                  | cons y below =>
                      rw [Postfix.run_binary R hu]
                      rcases ih _ hrest with ⟨v, hv, hw⟩ | ⟨e, he, hk⟩
                      · refine .inl ⟨v, hv, ?_⟩
                        simp [Instr.weight, Connective.weight, hu] at hw ⊢
                        omega
                      · exact .inr ⟨e, he, hk⟩

/-! ## The value of an expression's text -/

/-- The value of the text of an expression as a premise: its tokens, put in postfix form and run
on the stack machine, with each fact resolved by `R`. -/
def Postfix.valueOf (R : Char → Infer (Option Bool)) (e : String) : Infer Bool := do
  let ts ← lift (Token.scan e.toList)
  let code ← lift (Postfix.ofTokens ts)
  Postfix.run R [] code

/-- A text whose postfix program is the code of a formula evaluates to the formula's value, when
each of its letters resolves to the value `ν` gives it. -/
theorem Postfix.valueOf_of_code {R : Char → Infer (Option Bool)} {ν : Char → Bool} {m : Memory}
    {e : String} {ts : List Token} {f : Formula} (hs : Token.scan e.toList = .ok ts)
    (hc : Postfix.ofTokens ts = .ok f.code)
    (hR : ∀ c ∈ f.letters, (R c).run m = .ok (some (ν c)) m) :
    (Postfix.valueOf R e).run m = .ok (f.eval ν) m := by
  have hrun := Postfix.run_code R f [] []
  rw [List.append_nil] at hrun
  simp only [Postfix.valueOf, hs, hc, lift, EStateM.run_bind, EStateM.run_pure, hrun,
    Formula.operand_of_values hR, Postfix.run.eq_1, Operand.truth]

/-- A well-formed expression in which no negation sign follows another, its facts atomic and
holding the values an assignment gives them, evaluates to the value of the formula it reads as,
and the memory stays as it was. -/
theorem valueOf_spell_eq_eval {ts : List Token} {f : Formula} (h : Formula.Reads 0 ts f)
    (hn : NoDoubleNeg ts) (ν : Char → Bool) {m : Memory}
    (hm : ∀ c ∈ f.letters, m.facts.get c = { value := some (ν c), atomic := true })
    (inSession : Bool) (rules : List Rule) {unvisited : List Char}
    (hu : ∀ c ∈ f.letters, c ∈ unvisited) :
    (Postfix.valueOf (Infer.resolve inSession rules false unvisited) (Token.spell ts)).run m =
      .ok (f.eval ν) m := by
  have hR : ∀ c ∈ f.letters,
      (Infer.resolve inSession rules false unvisited c).run m = .ok (some (ν c)) m := by
    intro c hc
    rw [Infer.resolve_atomic (hu c hc) (by simp [hm c hc]), hm c hc]
  exact Postfix.valueOf_of_code (Token.scan_spell h.inExpression) (Postfix.ofTokens_reads h hn) hR

/-- A memory in which `A` is an atomic true fact and `B` an atomic false one. -/
def sampleMemory : Memory :=
  ⟨(((FactTable.empty.register 'A').register 'B').modify 'A' fun _ => ⟨some true, true⟩).modify 'B'
    fun _ => ⟨some false, true⟩, ""⟩

theorem valueOf_conj_neg :
    Formula.Reads 0 [.fact 'A', .op .and, .op .not, .fact 'B']
      (.bin .conj (.atom 'A') (.neg (.atom 'B'))) ∧
    NoDoubleNeg [.fact 'A', .op .and, .op .not, .fact 'B'] ∧
    (Postfix.valueOf (Infer.resolve false [] false ['A', 'B'])
      (Token.spell [.fact 'A', .op .and, .op .not, .fact 'B'])).run sampleMemory =
      .ok true sampleMemory := by
  have hr : Formula.Reads 0 [.fact 'A', .op .and, .op .not, .fact 'B']
      (.bin .conj (.atom 'A') (.neg (.atom 'B'))) :=
    .bin (l := [.fact 'A']) (r := [.op .not, .fact 'B']) .conj (by decide) (.atom rfl)
      (.neg (.atom rfl))
  have hn : NoDoubleNeg [.fact 'A', .op .and, .op .not, .fact 'B'] := by decide
  have hm : ∀ c ∈ (Formula.bin .conj (.atom 'A') (.neg (.atom 'B'))).letters,
      sampleMemory.facts.get c = { value := some (c == 'A'), atomic := true } := by
    simp only [Formula.letters, List.mem_append, List.mem_singleton]
    rintro c (rfl | rfl) <;> rfl
  exact ⟨hr, hn, valueOf_spell_eq_eval hr hn (fun c => c == 'A') hm false []
    (by simp [Formula.letters])⟩

/-- `!!A` reads as a double negation, yet its evaluation stops on a negation with no operand:
the second sign moved the first to the output before `A`. -/
theorem valueOf_double_negation :
    Formula.Reads 0 [.op .not, .op .not, .fact 'A'] (.neg (.neg (.atom 'A'))) ∧
    (Postfix.valueOf (Infer.resolve false [] false ['A', 'B']) "!!A").run sampleMemory =
      .error (.noOperand .not) sampleMemory :=
  ⟨.neg (.neg (.atom rfl)), rfl⟩

/-! ## What evaluation refuses -/

/-- An expression ends with an operand: a fact or a closing parenthesis. -/
theorem Formula.Reads.getLast? {p : Nat} {ts : List Token} {f : Formula} (h : Formula.Reads p ts f) :
    (∃ c, ts.getLast? = some (.fact c)) ∨ ts.getLast? = some .closeParen := by
  induction h with
  | atom => exact .inl ⟨_, rfl⟩
  | paren => right; simp [List.getLast?_cons]
  | neg _ ih => rcases ih with ⟨c, hc⟩ | hc <;> simp [List.getLast?_cons, hc]
  | bin o _ _ _ _ ihr =>
      rcases ihr with ⟨c, hc⟩ | hc <;> simp [List.getLast?_append, List.getLast?_cons, hc]

/-- Over the characters of the expression language, with its facts atomic and holding values, a
text is refused with a bad value when its parentheses do not match or its letters do not
outnumber its binary connectives by exactly one; a well-formed text in which no negation sign
follows another is not refused. -/
theorem valueOf_refusals {ts : List Token} (hts : ∀ t ∈ ts, t.inExpression = true)
    (ν : Char → Bool) {m : Memory}
    (hm : ∀ c ∈ ts.filterMap Token.name?, m.facts.get c = { value := some (ν c), atomic := true })
    (inSession : Bool) (rules : List Rule) {unvisited : List Char}
    (hu : ∀ c ∈ ts.filterMap Token.name?, c ∈ unvisited) :
    ((¬ Postfix.Balanced ts ∨ (ts.map Token.weight).sum ≠ 1) →
      ∃ e m', (Postfix.valueOf (Infer.resolve inSession rules false unvisited)
        (Token.spell ts)).run m = .error e m' ∧ e.kind = .badValue) ∧
    ((∃ f, Formula.Reads 0 ts f) → NoDoubleNeg ts →
      ∃ v, (Postfix.valueOf (Infer.resolve inSession rules false unvisited)
        (Token.spell ts)).run m = .ok v m) := by
  -- the two implications meet on the result of the shunting pass and then of the stack machine
  have hscan := Token.scan_spell hts
  have hwell : (∃ f, Formula.Reads 0 ts f) → NoDoubleNeg ts →
      ∃ v, (Postfix.valueOf (Infer.resolve inSession rules false unvisited)
        (Token.spell ts)).run m = .ok v m := by
    rintro ⟨f, hf⟩ hn
    rw [hf.names] at hm hu
    exact ⟨_, valueOf_spell_eq_eval hf hn ν hm inSession rules hu⟩
  refine ⟨fun hbad => ?_, hwell⟩
  rcases Postfix.shunt_result [] ts with ⟨he, -⟩ | ⟨code, hok, hd, hnm, hwt⟩
  · exact ⟨.mismatchedParens, m,
      by simp [Postfix.valueOf, hscan, lift, Postfix.ofTokens, he, Infer.run_throw], rfl⟩
  · have hR : ∀ c ∈ code.filterMap Instr.name?,
        (Infer.resolve inSession rules false unvisited c).run m = .ok (some (ν c)) m := by
      intro c hc
      rw [hnm] at hc
      rw [Infer.resolve_atomic (hu c hc) (by simp [hm c hc]), hm c hc]
    have hvalue : (Postfix.valueOf (Infer.resolve inSession rules false unvisited)
        (Token.spell ts)).run m = (Postfix.run (Infer.resolve inSession rules false unvisited) [] code).run m := by
      simp [Postfix.valueOf, hscan, lift, Postfix.ofTokens, hok]
    rcases Postfix.run_result [] code hR with ⟨v, -, hw⟩ | ⟨e, he, hk⟩
    · simp only [Postfix.opens_nil, List.map_nil, List.sum_nil, Int.add_zero] at hd hwt
      simp only [List.length_nil, Int.cast_ofNat_Int, Int.zero_add, hwt] at hw
      exact absurd hd (hbad.resolve_right (by simp [hw]))
    · exact ⟨e, m, hvalue ▸ he, hk⟩

theorem valueOf_refuses_dangling_conj :
    (∀ t ∈ [Token.fact 'A', .op .and], t.inExpression = true) ∧
    (∀ c ∈ [Token.fact 'A', .op .and].filterMap Token.name?,
      sampleMemory.facts.get c = { value := some (c == 'A'), atomic := true }) ∧
    (∃ e m', (Postfix.valueOf (Infer.resolve false [] false ['A', 'B'])
      (Token.spell [.fact 'A', .op .and])).run sampleMemory = .error e m' ∧ e.kind = .badValue) := by
  have hts : ∀ t ∈ [Token.fact 'A', .op .and], t.inExpression = true := by decide
  have hm : ∀ c ∈ [Token.fact 'A', .op .and].filterMap Token.name?,
      sampleMemory.facts.get c = { value := some (c == 'A'), atomic := true } := by
    intro c hc
    simp only [List.filterMap_cons, Token.name?_fact, Token.name?_op, List.filterMap_nil,
      List.mem_singleton] at hc
    subst hc
    rfl
  exact ⟨hts, hm, (valueOf_refusals hts (fun c => c == 'A') hm false [] (by simp)).1
    (.inr (by decide))⟩

/-- A negation sign after its operand is not an expression, yet the text evaluates: `A!` is read
as the negation of `A`. -/
theorem valueOf_postfix_negation :
    (¬ ∃ f, Formula.Reads 0 [.fact 'A', .op .not] f) ∧
    (Postfix.valueOf (Infer.resolve false [] false ['A', 'B']) "A!").run sampleMemory =
      .ok false sampleMemory := by
  refine ⟨?_, ?_⟩
  · rintro ⟨f, hf⟩
    rcases hf.getLast? with ⟨c, hc⟩ | hc <;> simp at hc
  · have hR : ∀ c ∈ (Formula.neg (.atom 'A')).letters,
        (Infer.resolve false [] false ['A', 'B'] c).run sampleMemory =
          .ok (some (c == 'A')) sampleMemory := by
      intro c hc
      simp only [Formula.letters, List.mem_singleton] at hc
      subst hc
      exact Infer.resolve_atomic (by decide) (by decide)
    have hs : Token.scan "A!".toList = .ok [.fact 'A', .op .not] := rfl
    exact Postfix.valueOf_of_code hs rfl hR

end Entail
