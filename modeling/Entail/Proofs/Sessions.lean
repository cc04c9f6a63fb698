import Entail.Proofs.Coupling

/-! A session typed the cleaned lines of a rule book reads it as the rule book is read, and its
exec answers as the run does, except that it refuses a conclusion of two facts. -/

namespace Entail

open Text Infer

/-! ## Lines that read as rules -/

/-- A character below the small letters, or between them and `µ`, is its own upper case. -/
theorem Text.upperChar_of_lt {c : Char} (h : c.toNat < 97 ∨ (122 < c.toNat ∧ c.toNat < 181)) :
    upperChar c = [c] := by
  -- every special form, and every run but the first one of the small letters, lies higher
  have hspecial : ∀ p ∈ upperSpecial, 181 ≤ p.1 := by
    have h : upperSpecial.all (fun p => 181 ≤ p.1) = true := by decide
    simpa using h
  have hruns : ∀ r ∈ upperRuns.tail, 181 ≤ r.first := by
    have h : upperRuns.tail.all (fun r => 181 ≤ r.first) = true := by decide
    simpa using h
  have hs : upperSpecial.lookup c.toNat = none :=
    List.lookup_eq_none_iff.mpr fun p hp => by
      have := hspecial p hp
      simp only [bne_iff_ne, ne_eq]
      omega
  have hr : upperRuns.find? (·.covers c.toNat) = none := by
    rw [show upperRuns = ⟨97, 122, 1, -32⟩ :: upperRuns.tail from rfl, List.find?_eq_none]
    intro r hr
    rcases List.mem_cons.mp hr with rfl | hr
    · simp only [CaseRun.covers, Bool.and_eq_true, decide_eq_true_eq, not_and]
      omega
    · have := hruns r hr
      simp only [CaseRun.covers, Bool.and_eq_true, decide_eq_true_eq, not_and]
      omega
  simp [upperChar, hs, hr]

theorem Text.upper_of_forall {s : String} (h : ∀ c ∈ s.toList, upperChar c = [c]) :
    upper s = s := by
  rw [upper, List.flatMap_congr h, List.flatMap_singleton', String.ofList_toList]

theorem Text.upper_exec : upper "exec" = "EXEC" := by decide

theorem isFactName_toNat {c : Char} (h : isFactName c = true) : 65 ≤ c.toNat ∧ c.toNat ≤ 90 := by
  simp only [isFactName, Bool.and_eq_true, decide_eq_true_eq] at h
  exact ⟨h.1, h.2⟩

theorem Text.upperChar_of_isFactName {c : Char} (h : isFactName c = true) : upperChar c = [c] := by
  have := isFactName_toNat h
  exact upperChar_of_lt (.inl (by omega))

theorem Except.exists_of_map_eq_ok {ε α β : Type} {f : α → β} {x : Except ε α} {b : β}
    (h : f <$> x = .ok b) : ∃ a, x = .ok a := by
  cases x with
  | error e => cases h
  | ok a => exact ⟨a, rfl⟩

namespace Token

/-- The characters that scanning accepts: those of the arrows and those that form a token. -/
def isChar (c : Char) : Bool := c = '<' || c = '>' || (ofChar? c).isSome

theorem isChar_of_scan {cs : List Char} {ts : List Token} (h : scan cs = .ok ts) :
    ∀ c ∈ cs, isChar c = true := by
  induction cs using scan.induct generalizing ts with
  | case1 => simp
  | case2 rest ih =>
      rw [scan] at h
      obtain ⟨ts', h'⟩ := Except.exists_of_map_eq_ok h
      intro c hc
      simp only [List.mem_cons] at hc
      rcases hc with rfl | rfl | rfl | hc
      · decide
      · decide
      · decide
      · exact ih h' c hc
  | case3 rest ih =>
      rw [scan] at h
      obtain ⟨ts', h'⟩ := Except.exists_of_map_eq_ok h
      intro c hc
      simp only [List.mem_cons] at hc
      rcases hc with rfl | rfl | hc
      · decide
      · decide
      · exact ih h' c hc
  | case4 c rest h1 h2 t ht ih =>
      rw [scan.eq_4 c rest h1 h2, ht] at h
      obtain ⟨ts', h'⟩ := Except.exists_of_map_eq_ok h
      intro d hd
      rcases List.mem_cons.mp hd with rfl | hd
      · simp [isChar, ht]
      · exact ih h' d hd
  | case5 c rest h1 h2 ht =>
      rw [scan.eq_4 c rest h1 h2, ht] at h
      cases h

/-- The characters of the rule language are their own upper case. -/
theorem upperChar_of_isChar {c : Char} (h : isChar c = true) : upperChar c = [c] := by
  by_cases hf : isFactName c
  · exact upperChar_of_isFactName hf
  · apply upperChar_of_lt
    -- the other characters are punctuation, below the small letters but for `|`
    have hc : c ∈ ['<', '>', '(', ')', '!', '+', '|', '^', '='] := by
      simp only [isChar, ofChar?, Bool.or_eq_true, decide_eq_true_eq, hf] at h
      split_ifs at h <;> simp_all
    simp only [List.mem_cons, List.not_mem_nil, or_false] at hc
    rcases hc with rfl | rfl | rfl | rfl | rfl | rfl | rfl | rfl | rfl <;> decide

/-- Scanning makes an arrow only of an `=` in the text. -/
theorem scan_arrow {cs : List Char} {ts : List Token} (h : scan cs = .ok ts) (hc : '=' ∉ cs) :
    ∀ t ∈ ts, t.arrow? = none := by
  induction cs using scan.induct generalizing ts with
  | case1 =>
      cases h
      simp
  | case2 rest ih => simp at hc
  | case3 rest ih => simp at hc
  | case4 c rest h1 h2 t ht ih =>
      rw [scan.eq_4 c rest h1 h2, ht] at h
      obtain ⟨ts', h'⟩ := Except.exists_of_map_eq_ok h
      rw [h'] at h
      cases h
      intro u hu
      rcases List.mem_cons.mp hu with rfl | hu
      · -- a token of one character is no arrow
        unfold ofChar? at ht
        split_ifs at ht <;> cases ht <;> rfl
      · exact ih h' (fun h => hc (List.mem_cons_of_mem c h)) u hu
  | case5 c rest h1 h2 ht =>
      rw [scan.eq_4 c rest h1 h2, ht] at h
      cases h

end Token

namespace Rule

theorem split_of_arrow_none {ts : List Token} (h : ∀ t ∈ ts, t.arrow? = none) :
    split ts = (ts, none) := by
  induction ts with
  | nil => rfl
  | cons t ts ih =>
      have ht := h t List.mem_cons_self
      rw [split, ht, ih fun u hu => h u (List.mem_cons_of_mem t hu)]

/-- What a line read as a rule is made of: characters of the rule language and spaces, among them
the `=` of its arrow. So the line is its own upper case and does not begin with `?`. -/
theorem line_of_parse {t t' : FactTable} {line : String} {r : Rule}
    (h : parse t line = (t', .ok r)) :
    '=' ∈ line.toList ∧ upper line = line ∧ '?' ∉ line.toList := by
  unfold parse at h
  rcases hs : Token.scanText line with e | tokens
  · simp [hs] at h
  · have hchar := Token.isChar_of_scan hs
    have hmem : ∀ c ∈ line.toList, c ≠ ' ' → c ∈ Token.unspaced line := fun c hc hsp =>
      List.mem_filter.mpr ⟨hc, by simpa using hsp⟩
    refine ⟨?_, upper_of_forall fun c hc => ?_, fun hq => ?_⟩
    · -- with no `=` there is no arrow, and a line without an arrow is refused
      by_contra heq
      have hsplit := split_of_arrow_none (Token.scan_arrow hs fun h' => heq (List.mem_filter.mp h').1)
      simp only [hs, hsplit] at h
      split at h
      · cases h
      · cases h
      · cases h
      · simp_all
    · by_cases hsp : c = ' '
      · subst hsp
        decide
      · exact Token.upperChar_of_isChar (hchar c (hmem c hc hsp))
    · exact absurd (hchar '?' (hmem '?' hq (by decide))) (by decide)

end Rule

theorem Text.isBlank_of_isFactName {c : Char} (h : isFactName c = true) : isBlank c = false := by
  have := isFactName_toNat h
  simp only [isBlank, blankCodes, List.contains_eq_mem, decide_eq_false_iff_not, List.mem_cons,
    List.not_mem_nil, or_false]
  omega

theorem Text.trim_of_forall {s : String} (h : ∀ c ∈ s.toList, isBlank c = false) : trim s = s := by
  have hl : s.toList.dropWhile isBlank = s.toList :=
    List.dropWhile_eq_self_iff.mpr fun hl => by simp [h _ (List.getElem_mem hl)]
  have hr : s.toList.reverse.dropWhile isBlank = s.toList.reverse :=
    List.dropWhile_eq_self_iff.mpr fun hl => by
      simp only [h _ (List.mem_reverse.mp (List.getElem_mem hl)), Bool.false_eq_true,
        not_false_eq_true]
  rw [trim, hl, hr, List.reverse_reverse, String.ofList_toList]

theorem RuleBook.marked_eq_some {mark : Char} {line : String} {rest : List Char}
    (h : marked mark line = some rest) :
    line.toList = mark :: rest ∧ ∀ c ∈ rest, isFactName c = true := by
  unfold marked at h
  split at h
  · rename_i c cs hl
    split_ifs at h with hc
    cases h
    exact ⟨by rw [hl, hc.1], List.all_eq_true.mp hc.2⟩
  · cases h

theorem RuleBook.parseRules_cons_eq_ok {t t' : FactTable} {line : String} {lines : List String}
    {rs : List Rule} (h : parseRules t (line :: lines) = .ok (t', rs)) :
    ∃ t₁ r rs', Rule.parse t line = (t₁, .ok r) ∧ parseRules t₁ lines = .ok (t', rs') ∧
      rs = r :: rs' := by
  rcases hp : Rule.parse t line with ⟨t₁, _ | r⟩
  · simp [parseRules, hp] at h
  · rw [parseRules, hp] at h
    rcases hr : parseRules t₁ lines with e | ⟨t₂, rs'⟩
    · simp [hr] at h
    · simp only [hr] at h
      cases h
      exact ⟨t₁, r, rs', rfl, hr, rfl⟩

/-- A line of a mark and capital letters is its own upper case when the mark is. -/
theorem RuleBook.upper_of_marked {mark : Char} {line : String} {rest : List Char}
    (h : marked mark line = some rest) (hm : upperChar mark = [mark]) : upper line = line := by
  obtain ⟨hl, hletters⟩ := marked_eq_some h
  refine upper_of_forall fun c hc => ?_
  rw [hl] at hc
  rcases List.mem_cons.mp hc with rfl | hc
  · exact hm
  · exact upperChar_of_isFactName (hletters c hc)

/-! ## A session typed the lines of a rule book -/

namespace Session

variable {v : Bool} {s : Session}

theorem run_of_next {typed : String} {s' : Session} {w : String}
    (h : s.step v typed = .next s' w) (rest : List String) :
    run v s (typed :: rest) = (w :: (run v s' rest).1, (run v s' rest).2) := by
  rw [run, h]

/-- A line holding a character other than a capital letter is no command. -/
theorem not_command {line : String} {c : Char} (h : c ∈ line.toList) (hc : isFactName c = false) :
    ¬ (line = "Q" ∨ line = "QUIT") ∧ line ≠ "FACTS" ∧ line ≠ "RULES" ∧ line ≠ "EXEC" := by
  have hne : ∀ w : String, (∀ d ∈ w.toList, isFactName d = true) → line ≠ w := fun w hw hlw => by
    rw [hw c (hlw ▸ h)] at hc
    cases hc
  exact ⟨not_or.mpr ⟨hne "Q" (by simp [isFactName]), hne "QUIT" (by simp [isFactName])⟩,
    hne "FACTS" (by simp [isFactName]), hne "RULES" (by simp [isFactName]),
    hne "EXEC" (by simp [isFactName])⟩

/-- A rule line that does not begin with `=` is entered as a rule, silently. -/
theorem step_rule {line : String} {t : FactTable} {r : Rule}
    (hp : Rule.parse s.facts line = (t, .ok r)) (hlead : line.toList.head? ≠ some '=') :
    s.step v line = .next { s with facts := t, rules := s.rules ++ [r] } "" := by
  obtain ⟨heq, hup, hq⟩ := Rule.line_of_parse hp
  obtain ⟨h₁, h₂, h₃, h₄⟩ := not_command heq (by decide)
  rcases hl : line.toList with _ | ⟨c, cs⟩
  · simp [hl] at heq
  · have hc₁ : c ≠ '=' := fun h => hlead (by simp [hl, h])
    have hc₂ : c ≠ '?' := fun h => hq (by simp [hl, h])
    rw [step]
    simp only [hup]
    rw [if_neg h₁, if_neg h₂, if_neg h₃, if_neg h₄, hl]
    split
    · simp_all
    · simp_all
    · simp_all
    · rw [hp]

/-- The line `=` and capital letters sets the initial facts, silently. -/
theorem step_initial {line : String} {given : List Char} (h : RuleBook.marked '=' line = some given) :
    s.step v line = .next { s with initial := String.ofList given } "" := by
  obtain ⟨hl, hletters⟩ := RuleBook.marked_eq_some h
  have hmem : '=' ∈ line.toList := by simp [hl]
  obtain ⟨h₁, h₂, h₃, h₄⟩ := not_command hmem (by decide)
  rw [step]
  have hup := RuleBook.upper_of_marked h (upperChar_of_lt (.inl (by decide)))
  simp only [hup]
  rw [if_neg h₁, if_neg h₂, if_neg h₃, if_neg h₄, hl]
  rfl

/-- The line `?` and capital letters sets the queries, silently. -/
theorem step_queries {line : String} {asked : List Char} (h : RuleBook.marked '?' line = some asked) :
    s.step v line = .next { s with queries := String.ofList asked } "" := by
  obtain ⟨hl, hletters⟩ := RuleBook.marked_eq_some h
  have hmem : '?' ∈ line.toList := by simp [hl]
  obtain ⟨h₁, h₂, h₃, h₄⟩ := not_command hmem (by decide)
  have hblank : ∀ c ∈ (String.ofList asked).toList, isBlank c = false := fun c hc =>
    isBlank_of_isFactName (hletters c (by simpa using hc))
  rw [step]
  have hup := RuleBook.upper_of_marked h (upperChar_of_lt (.inl (by decide)))
  simp only [hup]
  rw [if_neg h₁, if_neg h₂, if_neg h₃, if_neg h₄, hl, ← trim_of_forall hblank]
  rfl

theorem step_exec : s.step v "exec" = s.exec v := by
  simp [step, upper_exec]

/-- Rule lines that do not begin with `=` are entered one after the other, silently; the session
then goes on with their rules added and their letters entered. -/
theorem run_rules {L : List String} {t : FactTable} {rs : List Rule}
    (h : RuleBook.parseRules s.facts L = .ok (t, rs)) (hlead : ∀ l ∈ L, l.toList.head? ≠ some '=')
    (rest : List String) :
    run v s (L ++ rest) =
      (List.replicate L.length "" ++ (run v { s with facts := t, rules := s.rules ++ rs } rest).1,
        (run v { s with facts := t, rules := s.rules ++ rs } rest).2) := by
  induction L generalizing s rs with
  | nil =>
      simp only [RuleBook.parseRules, Except.ok.injEq, Prod.mk.injEq] at h
      obtain ⟨rfl, rfl⟩ := h
      simp
  | cons l L ih =>
      obtain ⟨t₁, r, rs', hp, hr, rfl⟩ := RuleBook.parseRules_cons_eq_ok h
      rw [List.cons_append, run_of_next (step_rule hp (hlead l List.mem_cons_self)),
        ih hr fun l' hl' => hlead l' (List.mem_cons_of_mem l hl')]
      simp [List.append_assoc, List.replicate_succ]

end Session

end Entail

/-! ## Answers in a session -/

namespace Entail

open Infer

/-- A conclusion reads the same in a session, but for one of three tokens, where the session
stops. -/
theorem Infer.conclude_in_session (verbose : Bool) (conclusion : List Token) (res : Bool) :
    Related Eq (· = .conclusionInSession) (conclude false verbose conclusion res)
      (conclude true verbose conclusion res) := by
  unfold Infer.conclude
  refine Related.report_then .eq_memory (fun _ => ?_) verbose fun _ _ ht => by rw [ht.showTokens]
  beta_reduce
  -- the shapes of a conclusion: empty, one token, two, three, or more
  rcases conclusion with _ | ⟨t₁, _ | ⟨t₂, _ | ⟨t₃, _ | ⟨t₄, rest⟩⟩⟩⟩
  · exact Related.refl_eq _
  · cases t₁ <;> exact Related.refl_eq _
  · rcases t₁ with _ | c | _ | _ <;> (try cases c) <;> exact Related.refl_eq _
  · intro m₁ m₂ _
    rcases t₁ with _ | c | _ | _ <;> (try cases c) <;> exact .stop rfl
  · cases t₁ <;> exact Related.refl_eq _

end Entail

/-! ## A session answers as the run on its rule book -/

namespace Entail

open Infer

/-- A rule book that is read: its rule lines, then the line of its initial facts, then the line
of its queries. -/
theorem RuleBook.ofLines_eq_ok_parts {lines : List String} {book : RuleBook}
    (h : ofLines lines = .ok book) :
    ∃ rules initial query, lines = rules ++ [initial, query] ∧
      parseRules .empty rules = .ok (book.facts, book.rules) ∧
      marked '=' initial = some book.initial ∧ marked '?' query = some book.queries := by
  unfold ofLines at h
  rcases hL : lines.reverse with _ | ⟨query, _ | ⟨initial, rest⟩⟩
  · rw [hL] at h
    cases h
  · rw [hL] at h
    cases h
  · rw [hL] at h
    dsimp only at h
    rcases hq : marked '?' query with _ | queries
    · rw [hq] at h
      cases h
    · rcases hi : marked '=' initial with _ | given
      · rw [hq, hi] at h
        cases h
      · rcases hr : parseRules .empty rest.reverse with e | ⟨facts, rules⟩
        · rw [hq, hi, hr] at h
          cases h
        · rw [hq, hi, hr] at h
          cases h
          refine ⟨rest.reverse, initial, query, ?_, hr, hi, hq⟩
          rw [← List.reverse_reverse lines, hL]
          simp

/-- The exec of a session that holds the rules, the table, the initial facts and the queries of a
rule book writes what the run on the rule book writes, or stops at a conclusion of two facts. -/
theorem Session.exec_of_book {book : RuleBook} {m : Memory}
    (hm : (RuleBook.answerAll false book).run ⟨book.facts, ""⟩ = .ok () m) :
    let s : Session :=
      ⟨book.rules, String.ofList book.initial, String.ofList book.queries, book.facts⟩
    (∃ s', s.exec false = .next s' m.written) ∨ ∃ w, s.exec false = .failed w .conclusionInSession := by
  have hrel : Related Eq (· = .conclusionInSession)
      (assume book.initial >>= fun _ => answerAll false false book.rules book.queries)
      (assume book.initial >>= fun _ => answerAll true false book.rules book.queries) :=
    Related.bind (Related.assume .eq_memory _) fun _ =>
      Related.answerAll .eq_memory (fun _ => rfl) conclude_in_session false _
  have hrun := hrel (rfl : (⟨book.facts, ""⟩ : Memory) = ⟨book.facts, ""⟩)
  rw [← RuleBook.answerAll_quiet, hm] at hrun
  unfold Session.exec
  simp only [Bool.false_eq_true, if_false, String.toList_ofList]
  rcases hrun.of_ok with ⟨m₂, h, rfl⟩ | ⟨e, m₂, h, rfl⟩
  · rw [h]
    exact .inl ⟨_, rfl⟩
  · rw [h]
    exact .inr ⟨_, rfl⟩

/-- A session typed the cleaned lines of a rule book that a run reads and answers normally, then
`exec`, writes nothing until the exec, and there writes what the run writes, unless it stops at a
conclusion of two facts. A rule line must not begin with `=`: a session takes such a line for the
initial facts. -/
theorem session_answers_as_run {text out : String}
    (hrun : Program.run [] text = ⟨out, "", .exit 0⟩)
    (hlead : ∀ l ∈ (RuleBook.cleanLines text).dropLast.dropLast, l.toList.head? ≠ some '=')
    (rest : List String) :
    (∃ ws e, Session.run false {} (RuleBook.cleanLines text ++ "exec" :: rest) =
      (List.replicate (RuleBook.cleanLines text).length "" ++ out :: ws, e)) ∨
    ∃ w, Session.run false {} (RuleBook.cleanLines text ++ "exec" :: rest) =
      (List.replicate (RuleBook.cleanLines text).length "" ++ [w], some .conclusionInSession) := by
  rw [Program.run_nil, RuleBook.answerText] at hrun
  -- the run reads the text as a rule book and answers it normally
  cases hb : RuleBook.ofLines (RuleBook.cleanLines text) with
  | error e =>
      rw [hb] at hrun
      exact absurd (congrArg Outcome.ending hrun) (Outcome.ofFault_ending "" e)
  | ok book =>
      simp only [hb] at hrun
      cases hm : (RuleBook.answerAll false book).run ⟨book.facts, ""⟩ with
      | error e m =>
          simp only [hm] at hrun
          exact absurd (congrArg Outcome.ending hrun) (Outcome.ofFault_ending _ e)
      | ok u m =>
          simp only [hm] at hrun
          have hout : m.written = out := congrArg Outcome.stdout hrun
          obtain ⟨R, ini, qry, hlines, hR, hini, hqry⟩ := RuleBook.ofLines_eq_ok_parts hb
          have hRlead : ∀ l ∈ R, l.toList.head? ≠ some '=' := by
            simpa [hlines] using hlead
          -- the session takes the rules, then the initial facts and the queries, silently
          rw [hlines, List.append_assoc, List.cons_append, List.cons_append, List.nil_append,
            Session.run_rules hR hRlead, Session.run_of_next (Session.step_initial hini),
            Session.run_of_next (Session.step_queries hqry)]
          simp only [Session.run, Session.step_exec, List.nil_append]
          have hlen : (R ++ [ini, qry]).length = R.length + 2 := by simp
          cases u
          rcases Session.exec_of_book hm with ⟨s', hs'⟩ | ⟨w, hw⟩
          · left
            refine ⟨(Session.run false s' rest).1, (Session.run false s' rest).2, ?_⟩
            simp [hs', hout, hlen, List.replicate_add, List.append_assoc]
          · right
            refine ⟨w, ?_⟩
            simp [hw, hlen, List.replicate_add, List.append_assoc]

theorem session_answers_as_run_sample :
    Program.run [] "A => B\nB + A => C\n=A\n?CB\n" = ⟨"Q[C]: True\nQ[B]: True\n", "", .exit 0⟩ ∧
    (∀ l ∈ (RuleBook.cleanLines "A => B\nB + A => C\n=A\n?CB\n").dropLast.dropLast,
      l.toList.head? ≠ some '=') ∧
    ((∃ ws e, Session.run false {} (RuleBook.cleanLines "A => B\nB + A => C\n=A\n?CB\n" ++ ["exec"]) =
      (List.replicate (RuleBook.cleanLines "A => B\nB + A => C\n=A\n?CB\n").length "" ++
        "Q[C]: True\nQ[B]: True\n" :: ws, e)) ∨
    ∃ w, Session.run false {} (RuleBook.cleanLines "A => B\nB + A => C\n=A\n?CB\n" ++ ["exec"]) =
      (List.replicate (RuleBook.cleanLines "A => B\nB + A => C\n=A\n?CB\n").length "" ++ [w],
        some .conclusionInSession)) := by
  have hrun : Program.run [] "A => B\nB + A => C\n=A\n?CB\n" =
      ⟨"Q[C]: True\nQ[B]: True\n", "", .exit 0⟩ := by decide +kernel
  have hlead : ∀ l ∈ (RuleBook.cleanLines "A => B\nB + A => C\n=A\n?CB\n").dropLast.dropLast,
      l.toList.head? ≠ some '=' := by decide +kernel
  exact ⟨hrun, hlead, session_answers_as_run hrun hlead []⟩

/-- A rule that a run reads, `=A => B`, is the line of initial facts to a session: the run answers
the query, the session knows no letter. -/
theorem session_takes_rule_for_initial :
    Program.run [] "=A => B\n=A\n?A\n" = ⟨"Q[A]: True\n", "", .exit 0⟩ ∧
    RuleBook.cleanLines "=A => B\n=A\n?A\n" = ["=A => B", "=A", "?A"] ∧
    Session.run false {} ["=A => B", "=A", "?A", "exec", "q"] =
      (["", "", "", "Initial fact A doesn't exist in graph\nQuery is not understood: A\n", ""],
        none) := by
  refine ⟨by decide +kernel, by decide +kernel, by decide +kernel⟩

end Entail
