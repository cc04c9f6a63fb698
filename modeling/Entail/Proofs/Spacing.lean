import Entail.Proofs.Independence

/-! Inserting or deleting spaces in a line without `#` changes nothing while the last two cleaned
lines stay the same, except in how a refused rule is quoted. -/

namespace Entail

open Token

/-! ## Lines split at a separator -/

namespace List

variable {α : Type}

/-- No piece of a list split where `p` holds has a character where `p` holds. -/
theorem not_of_mem_splitOnP {p : α → Bool} :
    ∀ {xs w : List α}, w ∈ xs.splitOnP p → ∀ c ∈ w, p c = false
  | [], w, hw => by simp_all [List.splitOnP_nil]
  | x :: xs, w, hw => by
    rw [List.splitOnP_cons_eq_if_modifyHead] at hw
    split at hw
    case isTrue =>
      rcases List.mem_cons.1 hw with rfl | hw
      · simp
      · exact not_of_mem_splitOnP hw
    case isFalse hx =>
      obtain ⟨r, rs, hr⟩ := List.exists_cons_of_ne_nil (List.splitOnP_ne_nil p xs)
      rw [hr, List.modifyHead_cons] at hw
      rcases List.mem_cons.1 hw with rfl | hw
      · intro c hc
        rcases List.mem_cons.1 hc with rfl | hc
        · simpa using hx
        · exact not_of_mem_splitOnP (hr ▸ List.mem_cons_self) c hc
      · exact not_of_mem_splitOnP (hr ▸ List.mem_cons_of_mem _ hw)

/-- Filtering out the separator of parts that do not hold it leaves the parts joined. -/
theorem filter_intercalate {a : α} {p : α → Bool} (ha : p a = false) :
    ∀ {P : List (List α)}, (∀ q ∈ P, ∀ c ∈ q, p c = true) → ([a].intercalate P).filter p = P.flatten
  | [], _ => rfl
  | [q], hP => by simpa using hP
  | q :: r :: P, hP => by
    rw [List.intercalate_cons_cons, List.filter_append, List.filter_append,
      filter_intercalate ha (fun s hs => hP s (List.mem_cons_of_mem _ hs)),
      List.filter_eq_self.mpr (hP q List.mem_cons_self)]
    simp [ha]

end List

/-! ## Words and cleaned lines -/

namespace RuleBook

/-- The pieces of a line between its spaces hold no space. -/
theorem space_of_mem_pieces {line : String} {q : List Char}
    (hq : q ∈ line.toList.splitOn ' ') : ∀ c ∈ q, decide (c ≠ ' ') = true := by
  rw [List.splitOn_eq_splitOnP] at hq
  intro c hc
  simpa using List.not_of_mem_splitOnP hq c hc

/-- The words of a line, joined, are the line without its spaces. -/
theorem flatten_words (line : String) :
    ((words line).map String.toList).flatten = unspaced line := by
  have hsplit := List.filter_intercalate (a := ' ') (p := fun c => decide (c ≠ ' ')) (by decide)
    (P := line.toList.splitOn ' ') fun q hq => space_of_mem_pieces hq
  rw [List.intercalate_splitOn] at hsplit
  rw [unspaced, hsplit, words, pieces, List.filter_map, List.map_map]
  simpa [Function.comp_def] using List.flatten_filter_ne_nil

/-- A word is not empty and holds no space. -/
theorem mem_words {line w : String} (hw : w ∈ words line) :
    w ≠ "" ∧ ∀ c ∈ w.toList, decide (c ≠ ' ') = true := by
  obtain ⟨hw, hne⟩ := List.mem_filter.1 hw
  obtain ⟨q, hq, rfl⟩ := List.mem_map.1 hw
  exact ⟨by simpa using hne, by simpa using space_of_mem_pieces hq⟩

/-- Words joined with single spaces read, without their spaces, as the words joined. -/
theorem unspaced_intercalate {ws : List String}
    (h : ∀ w ∈ ws, ∀ c ∈ w.toList, decide (c ≠ ' ') = true) :
    unspaced (" ".intercalate ws) = (ws.map String.toList).flatten := by
  rw [unspaced, String.toList_intercalate]
  exact List.filter_intercalate (by decide) (by simpa using h)

/-- Joining the words of a line with single spaces keeps the line without its spaces. -/
theorem unspaced_join_words (line : String) :
    unspaced (" ".intercalate (words line)) = unspaced line := by
  rw [unspaced_intercalate fun w hw => (mem_words hw).2, flatten_words]

/-- A line has no word exactly when it has nothing but spaces. -/
theorem words_eq_nil_iff (line : String) : words line = [] ↔ unspaced line = [] := by
  rw [← flatten_words, List.flatten_eq_nil_iff]
  constructor
  · intro h
    simp [h]
  · intro h
    rcases hws : words line with _ | ⟨w, ws⟩
    · rfl
    · have hw := (mem_words (hws ▸ List.mem_cons_self : w ∈ words line)).1
      exact absurd (String.toList_eq_nil_iff.1 (h _ (by simp [hws]))) hw

/-- A character of a word is a character of its line. -/
theorem mem_of_mem_words {line w : String} {c : Char} (hw : w ∈ words line)
    (hc : c ∈ w.toList) : c ∈ line.toList := by
  have : c ∈ unspaced line := by
    rw [← flatten_words]
    exact List.mem_flatten.2 ⟨_, List.mem_map_of_mem hw, hc⟩
  exact (List.mem_filter.1 this).1

/-- Without `#`, cleaning a line keeps all its words. -/
theorem cleanLine_of_no_comment {line : String} (h : '#' ∉ line.toList) :
    cleanLine line = if unspaced line = [] then none else some (" ".intercalate (words line)) := by
  have hall : (words line).takeWhile (fun w => w.toList.head? != some '#') = words line := by
    refine List.takeWhile_eq_self_iff.2 fun w hw => ?_
    have hhead : w.toList.head? ≠ some '#' := fun he =>
      h (mem_of_mem_words hw (List.mem_of_mem_head? he))
    simpa using hhead
  rw [cleanLine, hall]
  by_cases hu : unspaced line = []
  · rw [if_pos hu, (words_eq_nil_iff line).2 hu]
  · rw [if_neg hu]
    split
    case h_1 hnil => exact absurd ((words_eq_nil_iff line).1 hnil) hu
    case h_2 => rfl

/-- Two lines of a text alike up to their spaces: the same line, or lines without `#` that read
the same once their spaces are removed. -/
def Respaced (l₁ l₂ : String) : Prop :=
  l₁ = l₂ ∨ ('#' ∉ l₁.toList ∧ unspaced l₁ = unspaced l₂)

instance : DecidableRel Respaced := fun _ _ => inferInstanceAs (Decidable (_ ∨ _))

/-- Cleaning lines alike up to their spaces drops both or keeps two that read alike. -/
theorem cleanLine_respaced {l₁ l₂ : String} (h : Respaced l₁ l₂) :
    Option.Rel (fun a b => unspaced a = unspaced b) (cleanLine l₁) (cleanLine l₂) := by
  rcases h with rfl | ⟨hc₁, hu⟩
  · cases cleanLine l₁ with
    | none => exact .none
    | some l => exact .some rfl
  · have hc₂ : '#' ∉ l₂.toList := fun hc =>
      have : '#' ∈ unspaced l₂ := List.mem_filter.2 ⟨hc, by decide⟩
      hc₁ (List.mem_filter.1 (hu ▸ this)).1
    rw [cleanLine_of_no_comment hc₁, cleanLine_of_no_comment hc₂, hu]
    split
    case isTrue => exact .none
    case isFalse => exact .some (by rw [unspaced_join_words, unspaced_join_words, hu])

/-- Texts whose lines are alike up to their spaces clean to lines that read alike. -/
theorem cleanLines_respaced {text₁ text₂ : String}
    (h : List.Forall₂ Respaced (pieces '\n' text₁) (pieces '\n' text₂)) :
    List.Forall₂ (fun a b => unspaced a = unspaced b) (cleanLines text₁) (cleanLines text₂) :=
  List.rel_filterMap (fun _ _ hl => cleanLine_respaced hl) h

end RuleBook

/-! ## Readings alike up to spacing -/

/-- Two faults that differ at most in the spacing of the rule they quote: a rule refused for an
empty side is quoted as it was cleaned. -/
inductive Fault.Respaced : Fault → Fault → Prop
  | refl (e : Fault) : Respaced e e
  | emptyPremise {l₁ l₂ : String} (h : unspaced l₁ = unspaced l₂) :
      Respaced (.emptyPremise l₁) (.emptyPremise l₂)
  | emptyConclusion {l₁ l₂ : String} (h : unspaced l₁ = unspaced l₂) :
      Respaced (.emptyConclusion l₁) (.emptyConclusion l₂)

/-- Two readings alike up to spacing: the same value, or faults alike up to spacing. -/
inductive Fault.RespacedResult {α : Type} : Except Fault α → Except Fault α → Prop
  | ok (a : α) : RespacedResult (.ok a) (.ok a)
  | error {e₁ e₂ : Fault} (h : e₁.Respaced e₂) : RespacedResult (.error e₁) (.error e₂)

namespace Fault.RespacedResult

variable {α β : Type} {r₁ r₂ : Except Fault α}

theorem refl (r : Except Fault α) : RespacedResult r r := by
  cases r with
  | ok a => exact .ok a
  | error e => exact .error (.refl e)

theorem map (f : α → β) (h : RespacedResult r₁ r₂) :
    RespacedResult (f <$> r₁) (f <$> r₂) := by
  cases h with
  | ok a => exact .ok (f a)
  | error h => exact .error h

theorem bind (h : RespacedResult r₁ r₂) (f : α → Except Fault β) :
    RespacedResult (r₁ >>= f) (r₂ >>= f) := by
  cases h with
  | ok a => exact refl (f a)
  | error h => exact .error h

end Fault.RespacedResult

/-- Rule lines that read alike once their spaces are removed enter the same facts, and give the
same rule or faults alike up to spacing. -/
theorem Rule.parse_respaced {l₁ l₂ : String} (h : unspaced l₁ = unspaced l₂) (t : FactTable) :
    (Rule.parse t l₁).1 = (Rule.parse t l₂).1 ∧
      Fault.RespacedResult (Rule.parse t l₁).2 (Rule.parse t l₂).2 := by
  simp only [Rule.parse, scanText, h]
  generalize scan (unspaced l₂) = tokens
  cases tokens with
  | error e => exact ⟨rfl, .refl _⟩
  | ok tokens =>
    -- a premise and what follows the arrow: four shapes, three of them refused with the line
    dsimp only
    generalize split tokens = parts
    obtain ⟨premise, after⟩ := parts
    rcases premise with _ | ⟨p, ps⟩ <;> rcases after with _ | ⟨a, _ | ⟨c, cs⟩⟩
    all_goals first
      | exact ⟨rfl, .error (.emptyPremise h)⟩
      | exact ⟨rfl, .error (.emptyConclusion h)⟩
      | exact ⟨rfl, .ok _⟩

namespace RuleBook

/-- Rule lines that read alike one by one read into the same table and rules, or stop at faults
alike up to spacing. -/
theorem parseRules_respaced {L₁ L₂ : List String}
    (h : List.Forall₂ (fun a b => unspaced a = unspaced b) L₁ L₂) (t : FactTable) :
    Fault.RespacedResult (parseRules t L₁) (parseRules t L₂) := by
  induction h generalizing t with
  | nil => exact .ok _
  | @cons l₁ l₂ L₁ L₂ hl _ ih =>
    obtain ⟨htable, hrule⟩ := Rule.parse_respaced hl t
    rw [parseRules, parseRules]
    generalize Rule.parse t l₁ = p₁ at htable hrule
    generalize Rule.parse t l₂ = p₂ at htable hrule
    obtain ⟨t₁, r₁⟩ := p₁
    obtain ⟨t₂, r₂⟩ := p₂
    dsimp only at htable hrule ⊢
    subst htable
    cases hrule with
    | ok r => exact (ih t₁).map _
    | error h => exact .error h

/-- Cleaned lines that read alike one by one and end in the same initial-facts and query lines
read into the same rule book, or fail with faults alike up to spacing. -/
theorem ofLines_respaced {L₁ L₂ : List String}
    (h : List.Forall₂ (fun a b => unspaced a = unspaced b) L₁ L₂)
    (hlast : L₁.rtake 2 = L₂.rtake 2) :
    Fault.RespacedResult (ofLines L₁) (ofLines L₂) := by
  have hrev := List.forall₂_reverse_iff.2 h
  rw [List.rtake_eq_reverse_take_reverse, List.rtake_eq_reverse_take_reverse,
    List.reverse_inj] at hlast
  rw [ofLines, ofLines]
  generalize L₁.reverse = R₁ at hrev hlast ⊢
  generalize L₂.reverse = R₂ at hrev hlast ⊢
  -- the reversed lines: the query line, the initial-facts line, then the rules backwards
  cases hrev with
  | nil => exact .refl _
  | cons _ hrest =>
    cases hrest with
    | nil => exact .refl _
    | cons _ hrules =>
      simp only [List.take_succ_cons, List.take_zero, List.cons.injEq, and_true] at hlast
      obtain ⟨rfl, rfl⟩ := hlast
      dsimp only
      cases marked '?' _ with
      | none => exact .refl _
      | some queries =>
        cases marked '=' _ with
        | none => exact .refl _
        | some given => exact (parseRules_respaced (List.forall₂_reverse_iff.2 hrules) _).bind _

end RuleBook

/-! ## The run -/

/-- Inserting or deleting spaces in lines without `#` leaves the run as it was, as long as the
initial-facts and query lines clean to the same text. The one difference left is a rule refused
for an empty side, which the fault quotes with its own spacing. -/
theorem run_respaced {text₁ text₂ : String}
    (hlines : List.Forall₂ RuleBook.Respaced (RuleBook.pieces '\n' text₁)
      (RuleBook.pieces '\n' text₂))
    (hlast : (RuleBook.cleanLines text₁).rtake 2 = (RuleBook.cleanLines text₂).rtake 2) :
    Program.run [] text₁ = Program.run [] text₂ ∨
      ∃ e₁ e₂, Fault.Respaced e₁ e₂ ∧ Program.run [] text₁ = Outcome.ofFault "" e₁ ∧
        Program.run [] text₂ = Outcome.ofFault "" e₂ := by
  have hbook := RuleBook.ofLines_respaced (RuleBook.cleanLines_respaced hlines) hlast
  simp only [Program.run_nil, RuleBook.answerText]
  generalize RuleBook.ofLines (RuleBook.cleanLines text₁) = r₁ at hbook ⊢
  generalize RuleBook.ofLines (RuleBook.cleanLines text₂) = r₂ at hbook ⊢
  cases hbook with
  | ok book => exact .inl rfl
  | error h => exact .inr ⟨_, _, h, rfl, rfl⟩

theorem run_respaced_sample :
    List.Forall₂ RuleBook.Respaced (RuleBook.pieces '\n' "A + C => B\n=AC\n?B\n")
        (RuleBook.pieces '\n' "A+C  =>B\n  =AC\n?B\n") ∧
      (RuleBook.cleanLines "A + C => B\n=AC\n?B\n").rtake 2 =
        (RuleBook.cleanLines "A+C  =>B\n  =AC\n?B\n").rtake 2 ∧
      (Program.run [] "A + C => B\n=AC\n?B\n" = Program.run [] "A+C  =>B\n  =AC\n?B\n" ∨
        ∃ e₁ e₂, Fault.Respaced e₁ e₂ ∧
          Program.run [] "A + C => B\n=AC\n?B\n" = Outcome.ofFault "" e₁ ∧
          Program.run [] "A+C  =>B\n  =AC\n?B\n" = Outcome.ofFault "" e₂) := by
  have hp₁ : RuleBook.pieces '\n' "A + C => B\n=AC\n?B\n" = ["A + C => B", "=AC", "?B", ""] := by
    decide +kernel
  have hp₂ : RuleBook.pieces '\n' "A+C  =>B\n  =AC\n?B\n" = ["A+C  =>B", "  =AC", "?B", ""] := by
    decide +kernel
  have hlines : List.Forall₂ RuleBook.Respaced (RuleBook.pieces '\n' "A + C => B\n=AC\n?B\n")
      (RuleBook.pieces '\n' "A+C  =>B\n  =AC\n?B\n") := by
    rw [hp₁, hp₂]
    simp only [List.forall₂_cons, List.Forall₂.nil, and_true]
    decide +kernel
  have hlast : (RuleBook.cleanLines "A + C => B\n=AC\n?B\n").rtake 2 =
      (RuleBook.cleanLines "A+C  =>B\n  =AC\n?B\n").rtake 2 := by
    decide +kernel
  exact ⟨hlines, hlast, run_respaced hlines hlast⟩

/-- A space inside the initial-facts line is not harmless: the line is refused. -/
theorem run_spaced_initial_facts :
    Program.run [] "A => B\n= A\n?B\n" =
        ⟨"('Invalid initial facts:', '= A')\n", "", .exit 1⟩ ∧
      Program.run [] "A => B\n=A\n?B\n" = ⟨"Q[B]: True\n", "", .exit 0⟩ :=
  ⟨by decide +kernel, by decide +kernel⟩

end Entail
