import Entail.Proofs.Evaluation

/-! The scanner reads by maximal munch, and fails exactly on a character that can stand in no
token. -/

namespace Entail.Token

/-! ## The language -/

/-- The tokens of the language: the connectives, the parentheses and the capital letters. -/
def Lexeme : Token → Prop
  | fact c => isFactName c = true
  | _ => True

/-- The characters that tokens are written with. -/
def inAlphabet (c : Char) : Bool :=
  isFactName c || ['(', ')', '!', '+', '|', '^', '<', '=', '>'].contains c

/-- No token of the language whose text begins the text of `t` followed by `rest` is longer
than `t`. -/
def Longest (t : Token) (rest : List Char) : Prop :=
  ∀ u : Token, u.Lexeme → u.text.toList <+: t.text.toList ++ rest →
    u.text.toList.length ≤ t.text.toList.length

/-- `Munch cs ts`: the tokens `ts` read the text `cs` by maximal munch, each the longest token
of the language that begins what the tokens before it leave. -/
inductive Munch : List Char → List Token → Prop
  | nil : Munch [] []
  | cons {t : Token} {rest : List Char} {ts : List Token} : t.Lexeme → Longest t rest →
      Munch rest ts → Munch (t.text.toList ++ rest) (t :: ts)

@[simp] theorem text_toList_fact (c : Char) : (fact c).text.toList = [c] := by
  simp [text, Char.toString_eq_singleton]

/-- Only the arrows are written with more than one character. -/
theorem eq_arrow_of_one_lt {u : Token} (h : 1 < u.text.toList.length) :
    u = op .implies ∨ u = op .iff := by
  cases u with
  | fact c => simp at h
  | op c => cases c <;> simp_all [text, Connective.text]
  | openParen | closeParen => simp [text] at h

theorem text_length_le_three (u : Token) : u.text.toList.length ≤ 3 := by
  cases u with
  | fact c => simp
  | op c => cases c <;> decide
  | openParen | closeParen => decide

/-- A character that forms a token on its own is that token's text, in the alphabet, and
neither `<` nor `>`. -/
theorem ofChar?_eq_some {c : Char} {t : Token} (h : ofChar? c = some t) :
    t.text.toList = [c] ∧ t.Lexeme ∧ inAlphabet c = true ∧ c ≠ '<' ∧ c ≠ '>' := by
  unfold ofChar? at h
  split_ifs at h with h1 h2 h3 h4 h5 h6 h7 hc <;> cases h
  all_goals try (subst c; exact ⟨rfl, trivial, rfl, by decide, by decide⟩)
  -- a capital letter
  refine ⟨by simp, hc, by simp [inAlphabet, hc], ?_, ?_⟩ <;>
    (rintro rfl; exact absurd hc (by decide))

/-- A character that forms no token on its own is outside the alphabet, or an arrow's first or
last character. -/
theorem ofChar?_eq_none {c : Char} (h : ofChar? c = none) :
    inAlphabet c = false ∨ c = '<' ∨ c = '>' := by
  unfold ofChar? at h
  split_ifs at h with h1 h2 h3 h4 h5 h6 h7 h8
  by_cases hlt : c = '<'
  · exact .inr (.inl hlt)
  · by_cases hgt : c = '>'
    · exact .inr (.inr hgt)
    · left
      simp_all [inAlphabet]

/-! ## Texts that do not scan -/

/-- A character outside the alphabet. -/
def Foreign (cs : List Char) : Prop := ∃ c ∈ cs, inAlphabet c = false

/-- A `<` that `=>` does not follow. -/
def StrayLt (cs : List Char) : Prop := ∃ r, '<' :: r <:+ cs ∧ ¬ ['=', '>'] <+: r

/-- A `>` after a character other than `=`. -/
def StrayGt (cs : List Char) : Prop := ∃ c, c ≠ '=' ∧ [c, '>'] <:+: cs

/-- A text that no reading covers: it holds a character outside the alphabet, a `<` that `=>`
does not follow, or a `>` that comes first or after a character other than `=`. -/
def Unscannable (cs : List Char) : Prop :=
  Foreign cs ∨ StrayLt cs ∨ cs.head? = some '>' ∨ StrayGt cs

@[simp] theorem foreign_cons {c : Char} {r : List Char} :
    Foreign (c :: r) ↔ inAlphabet c = false ∨ Foreign r := by
  simp only [Foreign, List.mem_cons, exists_eq_or_imp]

@[simp] theorem strayLt_cons {c : Char} {r : List Char} :
    StrayLt (c :: r) ↔ (c = '<' ∧ ¬ ['=', '>'] <+: r) ∨ StrayLt r := by
  simp only [StrayLt, List.suffix_cons_iff, List.cons.injEq, or_and_right, exists_or, and_assoc,
    exists_and_left, exists_eq_left, eq_comm (a := '<')]

@[simp] theorem strayGt_cons {c : Char} {r : List Char} :
    StrayGt (c :: r) ↔ (c ≠ '=' ∧ r.head? = some '>') ∨ StrayGt r := by
  simp only [StrayGt, List.infix_cons_iff, List.cons_prefix_cons,
    List.singleton_prefix_iff_head?_eq_some]
  constructor
  · rintro ⟨d, hd, ⟨rfl, h⟩ | h⟩
    · exact .inl ⟨hd, h⟩
    · exact .inr ⟨d, hd, h⟩
  · rintro (⟨hc, hr⟩ | ⟨d, hd, h⟩)
    · exact ⟨c, hc, .inl ⟨rfl, hr⟩⟩
    · exact ⟨d, hd, .inr h⟩

/-- An arrow at the front changes nothing. -/
theorem unscannable_iff_arrow_cons {r : List Char} :
    Unscannable ('<' :: '=' :: '>' :: r) ↔ Unscannable r := by
  simp [Unscannable, inAlphabet]

theorem unscannable_implies_arrow_cons {r : List Char} :
    Unscannable ('=' :: '>' :: r) ↔ Unscannable r := by
  simp [Unscannable, inAlphabet]

/-- A character that forms a token on its own changes nothing, unless it is a `=` before a `>`. -/
theorem unscannable_single {c : Char} {t : Token} {r : List Char} (h : ofChar? c = some t)
    (heq : c = '=' → r.head? ≠ some '>') : Unscannable (c :: r) ↔ Unscannable r := by
  obtain ⟨-, -, hin, hlt, hgt⟩ := ofChar?_eq_some h
  by_cases hc : c = '='
  · have hr := heq hc
    subst hc
    simp [Unscannable, inAlphabet, hr]
  · simp [Unscannable, hin, hlt, hgt, hc]

theorem unscannable_of_ofChar?_eq_none {c : Char} {r : List Char} (h : ofChar? c = none)
    (hlt : c = '<' → ¬ ['=', '>'] <+: r) : Unscannable (c :: r) := by
  rcases ofChar?_eq_none h with hc | rfl | rfl
  · exact .inl (foreign_cons.mpr (.inl hc))
  · exact .inr (.inl (strayLt_cons.mpr (.inl ⟨rfl, hlt rfl⟩)))
  · exact .inr (.inr (.inl rfl))

/-! ## One token at a time -/

/-- A character followed by `rest` that begins an arrow. -/
def BeginsArrow (c : Char) (rest : List Char) : Prop :=
  (c = '<' ∧ ['=', '>'] <+: rest) ∨ (c = '=' ∧ rest.head? = some '>')

theorem not_beginsArrow {c : Char} {rest : List Char}
    (h1 : ∀ r, c = '<' → rest = '=' :: '>' :: r → False)
    (h2 : ∀ r, c = '=' → rest = '>' :: r → False) : ¬ BeginsArrow c rest := by
  rintro (⟨hc, r, hr⟩ | ⟨hc, hr⟩)
  · exact h1 r hc hr.symm
  · cases rest with
    | nil => simp at hr
    | cons d r =>
        simp only [List.head?_cons, Option.some.injEq] at hr
        exact h2 r hc (by rw [hr])

/-- A character that begins no arrow is read on its own. -/
theorem scan_single {c : Char} {rest : List Char} (h : ¬ BeginsArrow c rest) :
    scan (c :: rest) = match ofChar? c with
      | some t => (t :: ·) <$> scan rest
      | none => .error (.invalidToken c) := by
  refine scan.eq_4 c rest (fun r hc hr => h (.inl ⟨hc, r, hr.symm⟩)) fun r hc hr => ?_
  exact h (.inr ⟨hc, by simp [hr]⟩)

/-- `=>` is the longest token wherever it stands. -/
theorem longest_implies (rest : List Char) : Longest (op .implies) rest := by
  intro u _ hu
  by_contra hlen
  rcases eq_arrow_of_one_lt (u := u) (by simp [text, Connective.text] at hlen ⊢; omega)
    with rfl | rfl
  · exact hlen le_rfl
  · simp [text, Connective.text] at hu

/-- `<=>` is the longest token wherever it stands. -/
theorem longest_iff (rest : List Char) : Longest (op .iff) rest :=
  fun u _ _ => text_length_le_three u

/-- A token written as one character is the longest there exactly when it begins no arrow. -/
theorem longest_single_iff {t : Token} {c : Char} {rest : List Char} (ht : t.text.toList = [c]) :
    Longest t rest ↔ ¬ BeginsArrow c rest := by
  constructor
  · rintro hl (⟨rfl, r, rfl⟩ | ⟨rfl, hh⟩)
    · have hlen := hl (op .iff) trivial (by rw [ht]; exact ⟨r, rfl⟩)
      rw [ht] at hlen
      exact absurd hlen (by decide)
    · obtain ⟨r, rfl⟩ : ∃ r, rest = '>' :: r := by
        cases rest with
        | nil => simp at hh
        | cons d r => exact ⟨r, by simpa using hh⟩
      have hlen := hl (op .implies) trivial (by rw [ht]; exact ⟨r, rfl⟩)
      rw [ht] at hlen
      exact absurd hlen (by decide)
  · intro hb u _ hu
    rw [ht]
    by_contra hlen
    rw [ht, List.singleton_append] at hu
    rcases eq_arrow_of_one_lt (u := u) (by simp at hlen; omega) with rfl | rfl
    · obtain ⟨r, hr⟩ := hu
      change '=' :: '>' :: r = c :: rest at hr
      obtain ⟨rfl, rfl⟩ := List.cons.inj hr
      exact hb (.inr ⟨rfl, rfl⟩)
    · obtain ⟨r, hr⟩ := hu
      change '<' :: '=' :: '>' :: r = c :: rest at hr
      obtain ⟨rfl, rfl⟩ := List.cons.inj hr
      exact hb (.inl ⟨rfl, r, rfl⟩)

/-- A token of the language that no longer one extends is read off the front of the text. -/
theorem scan_text_append {t : Token} {rest : List Char} (ht : t.Lexeme) (hl : Longest t rest) :
    scan (t.text.toList ++ rest) = (t :: ·) <$> scan rest := by
  by_cases hin : t.inExpression = true
  · obtain ⟨ch, hch, h1, h2, hof⟩ := text_char hin
    rw [hch, List.singleton_append, scan_cons h1 h2 hof]
  -- what is left are the connectives `=`, `=>` and `<=>`
  cases t with
  | fact c => exact absurd ht hin
  | openParen | closeParen => exact absurd rfl hin
  | op c =>
      cases c with
      | not | and | or | xor => exact absurd rfl hin
      | implies => exact scan.eq_3 rest
      | iff => exact scan.eq_2 rest
      | equals => exact scan_single ((longest_single_iff rfl).mp hl)

/-! ## Reading a text -/

theorem exists_map_eq_error {α β : Type} (f : α → β) (x : Except Fault α) :
    (∃ e, f <$> x = .error e) ↔ ∃ e, x = .error e := by
  cases x <;> simp [Functor.map, Except.map]

theorem map_eq_ok {α β : Type} {f : α → β} {x : Except Fault α} {y : β}
    (h : f <$> x = .ok y) : ∃ a, x = .ok a ∧ y = f a := by
  cases x with
  | error e => cases h
  | ok a => exact ⟨a, rfl, (Except.ok.inj h).symm⟩

/-- The reading fails exactly on the texts that no reading covers. -/
theorem scan_eq_error_iff (cs : List Char) : (∃ e, scan cs = .error e) ↔ Unscannable cs := by
  fun_induction scan cs with
  | case1 => simp [Unscannable, Foreign, StrayLt, StrayGt]
  | case2 rest ih => rw [exists_map_eq_error, ih, unscannable_iff_arrow_cons]
  | case3 rest ih => rw [exists_map_eq_error, ih, unscannable_implies_arrow_cons]
  | case4 c rest h1 h2 t hof ih =>
      have hb := not_beginsArrow h1 h2
      rw [exists_map_eq_error, ih,
        unscannable_single hof fun hc hr => hb (.inr ⟨hc, hr⟩)]
  | case5 c rest h1 h2 hof =>
      have hb := not_beginsArrow h1 h2
      exact iff_of_true ⟨_, rfl⟩
        (unscannable_of_ofChar?_eq_none hof fun hc hp => hb (.inl ⟨hc, hp⟩))

/-- What the reading gives is the maximal-munch reading. -/
theorem munch_of_scan {cs : List Char} {ts : List Token} (h : scan cs = .ok ts) : Munch cs ts := by
  fun_induction scan cs generalizing ts with
  | case1 =>
      cases h
      exact .nil
  | case2 rest ih =>
      obtain ⟨ts', hts, rfl⟩ := map_eq_ok h
      exact .cons (t := op .iff) trivial (longest_iff rest) (ih hts)
  | case3 rest ih =>
      obtain ⟨ts', hts, rfl⟩ := map_eq_ok h
      exact .cons (t := op .implies) trivial (longest_implies rest) (ih hts)
  | case4 c rest h1 h2 t hof ih =>
      have hb := not_beginsArrow h1 h2
      obtain ⟨ts', hts, rfl⟩ := map_eq_ok h
      obtain ⟨htext, hlex, -⟩ := ofChar?_eq_some hof
      have hm := Munch.cons hlex ((longest_single_iff htext).mpr hb) (ih hts)
      rwa [htext, List.singleton_append] at hm
  | case5 => cases h

/-- The maximal-munch reading is what the reading gives. -/
theorem scan_of_munch {cs : List Char} {ts : List Token} (h : Munch cs ts) : scan cs = .ok ts := by
  induction h with
  | nil => rfl
  | cons ht hl _ ih => rw [scan_text_append ht hl, ih]; rfl

theorem scan_eq_ok_iff {cs : List Char} {ts : List Token} : scan cs = .ok ts ↔ Munch cs ts :=
  ⟨munch_of_scan, scan_of_munch⟩

/-- The texts of a reading spell what it reads. -/
theorem Munch.spell_toList {cs : List Char} {ts : List Token} (h : Munch cs ts) :
    (spell ts).toList = cs := by
  induction h with
  | nil => rfl
  | cons _ _ _ ih =>
      simp only [spell, List.map_cons, String.join_cons, String.toList_append] at ih ⊢
      rw [ih]

/-! ## Where a reading splits -/

/-- A place between two texts where no token straddles: the first does not end in `<`, nor in
`=` before a `>`. -/
def Cut (l m : List Char) : Prop :=
  l.getLast? ≠ some '<' ∧ (l.getLast? = some '=' → m.head? ≠ some '>')

theorem Cut.tail {c : Char} {l m : List Char} (h : Cut (c :: l) m) : Cut l m := by
  cases l with
  | nil => simp [Cut]
  | cons d l => rwa [Cut, List.getLast?_cons_cons] at h

/-- A character that begins no arrow in the first text begins none across the cut. -/
theorem Cut.not_beginsArrow {c : Char} {rest m : List Char} (h : Cut (c :: rest) m)
    (hb : ¬ BeginsArrow c rest) : ¬ BeginsArrow c (rest ++ m) := by
  rintro (⟨rfl, hp⟩ | ⟨rfl, hh⟩)
  · -- `<=>` across the cut would leave the first text ending in `<` or `<=`
    rcases rest with _ | ⟨d, _ | ⟨e, r⟩⟩
    · exact h.1 rfl
    · obtain ⟨rfl, hm⟩ := List.cons_prefix_cons.mp hp
      exact h.2 rfl (by simpa [List.singleton_prefix_iff_head?_eq_some] using hm)
    · obtain ⟨rfl, he⟩ := List.cons_prefix_cons.mp hp
      obtain ⟨rfl, -⟩ := List.cons_prefix_cons.mp he
      exact hb (.inl ⟨rfl, List.cons_prefix_cons.mpr ⟨rfl, by simp⟩⟩)
  · cases rest with
    | nil => exact h.2 rfl hh
    | cons d r => exact hb (.inr ⟨rfl, hh⟩)

/-- A token read first stays first when a second text is read after the first. -/
theorem cons_map_bind (t : Token) (x y : Except Fault (List Token)) :
    (t :: ·) <$> (x >>= fun a => (a ++ ·) <$> y) =
      ((t :: ·) <$> x) >>= fun a => (a ++ ·) <$> y := by
  cases x <;> cases y <;> rfl

/-- At a cut, the reading of two texts together is the reading of each in turn. -/
theorem scan_append {l m : List Char} (h : Cut l m) :
    scan (l ++ m) = scan l >>= fun a => (a ++ ·) <$> scan m := by
  fun_induction scan l with
  | case1 =>
      rw [List.nil_append]
      cases scan m <;> rfl
  | case2 rest ih =>
      rw [List.cons_append, List.cons_append, List.cons_append, scan, ih h.tail.tail.tail,
        cons_map_bind]
  | case3 rest ih =>
      rw [List.cons_append, List.cons_append, scan, ih h.tail.tail, cons_map_bind]
  | case4 c rest h1 h2 t hof ih =>
      rw [List.cons_append, scan_single (h.not_beginsArrow (not_beginsArrow h1 h2)), hof,
        ih h.tail]
      exact cons_map_bind t (scan rest) (scan m)
  | case5 c rest h1 h2 hof =>
      rw [List.cons_append, scan_single (h.not_beginsArrow (not_beginsArrow h1 h2)), hof]
      rfl

/-- No token of the language is written beginning with `>`. -/
theorem head?_text_ne {t : Token} (ht : t.Lexeme) : t.text.toList.head? ≠ some '>' := by
  cases t with
  | fact c =>
      simp only [text_toList_fact, List.head?_cons, ne_eq, Option.some.injEq]
      rintro rfl
      exact absurd (show isFactName '>' = true from ht) (by decide)
  | op c => cases c <;> decide
  | openParen | closeParen => decide

theorem text_ne_nil (t : Token) : t.text.toList ≠ [] := by
  cases t with
  | fact c => simp
  | op c => cases c <;> decide
  | openParen | closeParen => decide

/-- An occurrence of a token's text that no longer token extends, and that does not follow a
`<`, is read as that token, the texts before and after it read on their own. -/
theorem scan_occurrence {l r : List Char} {t : Token} {ts : List Token} (ht : t.Lexeme)
    (hl : Longest t r) (hlt : l.getLast? ≠ some '<')
    (h : scan (l ++ t.text.toList ++ r) = .ok ts) :
    ∃ ts₁ ts₂, ts = ts₁ ++ t :: ts₂ ∧ scan l = .ok ts₁ ∧ scan r = .ok ts₂ := by
  have hcut : Cut l (t.text.toList ++ r) := by
    refine ⟨hlt, fun _ hh => head?_text_ne ht ?_⟩
    rwa [List.head?_append_of_ne_nil _ (text_ne_nil t)] at hh
  rw [List.append_assoc, scan_append hcut, scan_text_append ht hl] at h
  -- both readings succeed, since the whole one does
  cases hl' : scan l with
  | error e =>
      rw [hl'] at h
      cases h
  | ok a =>
      cases hr : scan r with
      | error e =>
          rw [hl', hr] at h
          cases h
      | ok b =>
          rw [hl', hr] at h
          exact ⟨a, b, (Except.ok.inj h).symm, rfl, rfl⟩

/-! ## The reading of a text -/

/-- A text is read by maximal munch. The reading fails exactly on the texts that no reading
covers. Otherwise it gives the maximal-munch reading, the only one, whose token texts spell the
text back; a fact token carries only its letter. Every occurrence of a token's text that no
longer token extends and that does not follow a `<` is read as that token: each `<=>` as one
connective, each other `=>` as one, each other `=` as the connective `=`, and each letter as a
fact. -/
theorem scan_maximal_munch (cs : List Char) :
    ((∃ e, scan cs = .error e) ↔ Unscannable cs) ∧
    (∀ ts, scan cs = .ok ts ↔ Munch cs ts) ∧
    (∀ ts, scan cs = .ok ts → (spell ts).toList = cs) ∧
    ∀ l r t ts, cs = l ++ t.text.toList ++ r → t.Lexeme → Longest t r →
      l.getLast? ≠ some '<' → scan cs = .ok ts →
      ∃ ts₁ ts₂, ts = ts₁ ++ t :: ts₂ ∧ scan l = .ok ts₁ ∧ scan r = .ok ts₂ :=
  ⟨scan_eq_error_iff cs, fun _ => scan_eq_ok_iff, fun _ h => (munch_of_scan h).spell_toList,
    fun _ _ _ _ hcs ht hl hlt h => scan_occurrence ht hl hlt (hcs ▸ h)⟩

/-- In `A<=>B=>C` the second arrow is read as `=>`, between the readings of `A<=>B` and `C`. -/
theorem scan_reads_implies_after_iff :
    ∃ ts₁ ts₂,
      [fact 'A', op .iff, fact 'B', op .implies, fact 'C'] = ts₁ ++ op .implies :: ts₂ ∧
      scan ['A', '<', '=', '>', 'B'] = .ok ts₁ ∧ scan ['C'] = .ok ts₂ :=
  (scan_maximal_munch ['A', '<', '=', '>', 'B', '=', '>', 'C']).2.2.2 ['A', '<', '=', '>', 'B']
    ['C'] (op .implies) _ rfl trivial (longest_implies _) (by decide) rfl

end Entail.Token
