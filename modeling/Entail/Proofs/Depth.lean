import Entail.Proofs.Tables

/-! Resolution nests at most one level deeper than there are letters the rules conclude. -/

namespace Entail

namespace Infer

/-- One level of resolution: `resolve`, with the queries for the letters of a premise put to
`R`. -/
def resolveWith (inSession : Bool) (rules : List Rule) (verbose : Bool) (unvisited : List Char)
    (R : Char → Infer (Option Bool)) (c : Char) : Infer (Option Bool) :=
  if c ∈ unvisited then do
    if verbose then say ("Resolving query: " ++ (← table).showFact c)
    let f := (← table).get c
    if f.atomic then pure f.value
    else
      let relevant := rules.filter fun r => r.conclusion.contains (.fact c)
      if verbose then say ("RULES WITH RHS: " ++ (← table).showRules relevant)
      relevant.foldlM (fun acc r => do
        if r.premise.contains (.fact c) then
          say "Recursion attempted"
          pure acc
        else
          let code ← lift (Postfix.ofTokens r.premise)
          if verbose then say ("RPN: " ++ (← table).showPostfix code)
          let v ← Postfix.run R [] code
          if verbose then say ("LHS EVAL: " ++ boolText v ++ " is None: False")
          match r.arrow with
          | .implies =>
            if verbose then say "Resolving implication"
            if v then conclude inSession verbose r.conclusion true
            else
              if verbose then say "Proposition is False, moving on"
              pure acc
          | .iff =>
            if verbose then say "Resolving equivalence"
            conclude inSession verbose r.conclusion v) none
  else pure none

/-- Resolution unrolled `n` levels deep: the queries of the `n`-th level go to `bottom`. -/
def resolveUnrolled (inSession : Bool) (rules : List Rule)
    (bottom : List Char → Char → Infer (Option Bool)) :
    Nat → Bool → List Char → Char → Infer (Option Bool)
  | 0, _, unvisited, c => bottom unvisited c
  | n + 1, verbose, unvisited, c =>
    resolveWith inSession rules verbose unvisited
      (resolveUnrolled inSession rules bottom n false (unvisited.erase c)) c

variable {inSession : Bool} {rules : List Rule} {verbose : Bool} {U : List Char} {c : Char}

/-- Resolution is one level of itself, its nested queries resolved with `c` taken out. -/
theorem resolve_eq_resolveWith :
    resolve inSession rules verbose U c =
      resolveWith inSession rules verbose U (resolve inSession rules false (U.erase c)) c := by
  rw [resolve, resolveWith]
  split_ifs <;> rfl

/-- A letter already taken out resolves to nothing at once. -/
theorem resolveWith_of_not_mem (hc : c ∉ U) (R : Char → Infer (Option Bool)) :
    resolveWith inSession rules verbose U R c = pure none := by
  simp [resolveWith, hc]

/-- A letter that no rule concludes puts no query. -/
theorem resolveWith_of_not_head (hc : c ∉ rules.flatMap Rule.heads)
    (R R' : Char → Infer (Option Bool)) :
    resolveWith inSession rules verbose U R c = resolveWith inSession rules verbose U R' c := by
  have hrel : (rules.filter fun r => r.conclusion.contains (.fact c)) = [] := by
    rw [List.filter_eq_nil_iff]
    intro r hr hcon
    rw [List.contains_iff_mem] at hcon
    exact hc (List.mem_flatMap.mpr ⟨r, hr, List.mem_filterMap.mpr ⟨.fact c, hcon, rfl⟩⟩)
  simp only [resolveWith, hrel, List.foldlM_nil]

/-- Unrolled one level deeper than there are unvisited letters that the rules conclude, counted
with repeats, resolution is resolution itself, whatever stands below. -/
theorem resolveUnrolled_eq_resolve (bottom : List Char → Char → Infer (Option Bool)) (n : Nat) :
    ∀ (verbose : Bool) (U : List Char) (c : Char),
      U.countP (· ∈ rules.flatMap Rule.heads) < n →
      resolveUnrolled inSession rules bottom n verbose U c =
        resolve inSession rules verbose U c := by
  induction n with
  | zero => intro _ _ _ h; omega
  | succ n ih =>
      intro verbose U c hcount
      rw [resolveUnrolled, resolve_eq_resolveWith]
      by_cases hU : c ∈ U
      · by_cases hH : c ∈ rules.flatMap Rule.heads
        · -- `c` is taken out, and with it one of the letters counted
          have hlt : (U.erase c).countP (· ∈ rules.flatMap Rule.heads) < n := by
            have hpos : 0 < U.countP (· ∈ rules.flatMap Rule.heads) :=
              List.countP_pos_iff.mpr ⟨c, hU, by simpa using hH⟩
            rw [List.countP_erase, if_pos ⟨hU, by simpa using hH⟩]
            omega
          congr 1
          funext d
          exact ih false (U.erase c) d hlt
        · exact resolveWith_of_not_head hH _ _
      · rw [resolveWith_of_not_mem hU, resolveWith_of_not_mem hU]

/-- The letters of a table that the rules conclude are at most the distinct letters of the
rules. -/
theorem countP_keys_le (t : FactTable) (rules : List Rule) :
    t.keys.countP (· ∈ rules.flatMap Rule.heads) ≤
      (rules.flatMap Rule.letters).toFinset.card := by
  have hnd : (t.keys.filter (· ∈ rules.flatMap Rule.heads)).Nodup := t.nodup.filter _
  rw [List.countP_eq_length_filter, ← List.toFinset_card_of_nodup hnd]
  refine Finset.card_le_card fun d hd => ?_
  simp only [List.mem_toFinset, List.mem_filter, decide_eq_true_eq, List.mem_flatMap] at hd ⊢
  obtain ⟨-, r, hr, hdr⟩ := hd
  exact ⟨r, hr, Rule.mem_letters.mpr (.inr hdr)⟩

/-- Resolution ends on every rule book, cyclic ones included, and never nests deeper than one
level more than the distinct letters of its rules: resolving any letter against any table,
unrolled that many levels with anything at all below the last, is resolving it. -/
theorem resolve_nesting_depth (inSession : Bool) (rules : List Rule) (verbose : Bool)
    (t : FactTable) (bottom : List Char → Char → Infer (Option Bool)) (c : Char) :
    resolveUnrolled inSession rules bottom ((rules.flatMap Rule.letters).toFinset.card + 1) verbose
      t.keys c = resolve inSession rules verbose t.keys c :=
  resolveUnrolled_eq_resolve bottom _ verbose t.keys c
    (Nat.lt_succ_of_le (countP_keys_le t rules))

end Infer

end Entail
