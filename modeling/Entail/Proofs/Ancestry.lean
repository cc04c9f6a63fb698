import Entail.Proofs.Registration
import Entail.Proofs.Conservation
import Entail.Proofs.Depth

/-! Resolution over one shared stack of the facts under resolution: every call that ends normally
leaves the stack as it found it, and it agrees with resolution over the unvisited letters. -/

namespace Entail

open Infer

/-- The letters under resolution, innermost last, none twice. -/
def Ancestors := { l : List Char // l.Nodup }

namespace Ancestors

/-- No letter under resolution. -/
def empty : Ancestors := ⟨[], List.nodup_nil⟩

/-- The stack with a letter that is not on it pushed. -/
def push (s : Ancestors) (c : Char) (h : c ∉ s.1) : Ancestors := ⟨s.1.concat c, s.2.concat h⟩

/-- The stack with its innermost letter popped. -/
def pop (s : Ancestors) : Ancestors := ⟨s.1.dropLast, s.2.sublist (List.dropLast_sublist _)⟩

@[simp] theorem pop_push (s : Ancestors) (c : Char) (h : c ∉ s.1) : (s.push c h).pop = s :=
  Subtype.ext (by simp [push, pop])

end Ancestors

/-- Inference that also keeps the stack of letters under resolution. -/
abbrev Stacked := StateT Ancestors Infer

/-- The stack machine, its letters resolved by computations that share the stack. -/
def Postfix.runStacked (resolve : Char → Stacked (Option Bool)) :
    List Operand → Postfix → Stacked Bool
  | [x], [] => pure x.truth
  | _, [] => throw .notSingleValue
  | stack, .push c :: rest => do
    match ← resolve c with
    | some b => Postfix.runStacked resolve (.known b :: stack) rest
    | none =>
      update c fun f => { f with value := some false }
      Postfix.runStacked resolve (.unsettled c :: stack) rest
  | [], .apply c :: _ => throw (.noOperand c)
  | x :: stack, .apply c :: rest =>
    if c.isUnary then Postfix.runStacked resolve (.known (!x.truth) :: stack) rest
    else
      match stack with
      | [] => do throw (.oneOperand c (x.display (← table)))
      | y :: below => Postfix.runStacked resolve (.known (c.combine y.truth x.truth) :: below) rest

namespace Infer

/-- The resolution of a letter that is on the stack, its nested queries put to `R`: as `resolve`
does it once the letter is among the unvisited ones. -/
def resolveStackedBody (inSession : Bool) (rules : List Rule) (verbose : Bool)
    (R : Char → Stacked (Option Bool)) (c : Char) : Stacked (Option Bool) := do
  if verbose then say ("Resolving query: " ++ (← table).showFact c)
  let f := (← table).get c
  if f.atomic then pure f.value
  else
    let relevant := rules.filter fun r => r.conclusion.contains (.fact c)
    if verbose then say ("RULES WITH RHS: " ++ (← table).showRules relevant)
    relevant.foldlM (fun acc r => do
      if r.premise.contains (.fact c) then
        say "Recursion attempted"
        pure acc
      else
        let code ← lift (Postfix.ofTokens r.premise)
        if verbose then say ("RPN: " ++ (← table).showPostfix code)
        let v ← Postfix.runStacked R [] code
        if verbose then say ("LHS EVAL: " ++ boolText v ++ " is None: False")
        match r.arrow with
        | .implies =>
          if verbose then say "Resolving implication"
          if v then conclude inSession verbose r.conclusion true
          else
            if verbose then say "Proposition is False, moving on"
            pure acc
        | .iff =>
          if verbose then say "Resolving equivalence"
          conclude inSession verbose r.conclusion v) none

/-- One call of resolution over the shared stack, its nested queries put to `R`: a letter on the
stack resolves to nothing; any other is pushed, resolved, and popped. -/
def resolveStackedWith (inSession : Bool) (rules : List Rule) (verbose : Bool)
    (R : Char → Stacked (Option Bool)) (c : Char) : Stacked (Option Bool) := do
  let s ← get
  if h : c ∈ s.1 then pure none
  else
    set (s.push c h)
    let result ← resolveStackedBody inSession rules verbose R c
    modify Ancestors.pop
    pure result

/-- Resolution over the shared stack, nested at most `n` deep; below that, nothing is resolved. -/
def resolveStacked (inSession : Bool) (rules : List Rule) :
    Nat → Bool → Char → Stacked (Option Bool)
  | 0, _, _ => pure none
  | n + 1, verbose, c =>
    resolveStackedWith inSession rules verbose (resolveStacked inSession rules n false) c

/-- Answers one query over the shared stack, resolution nested one level deeper than there are
distinct letters in the rules. -/
def answerStacked (inSession verbose : Bool) (rules : List Rule) (q : Char) : Stacked Unit := do
  let t ← table
  if t.contains q then
    let v ←
      resolveStacked inSession rules ((rules.flatMap Rule.letters).toFinset.card + 1) verbose q
    say ("Q[" ++ q.toString ++ "]: " ++ boolText (v.getD false))
  else say ("Query is not understood: " ++ q.toString)

/-- Answers the queries in order, over one shared stack. -/
def answerAllStacked (inSession verbose : Bool) (rules : List Rule) (queries : List Char) :
    Stacked Unit :=
  queries.forM (answerStacked inSession verbose rules)

end Infer

/-- The letters that the code of a premise pushes are facts of the premise. -/
theorem Postfix.fact_of_push_mem {ts : List Token} {code : Postfix}
    (h : Postfix.ofTokens ts = .ok code) {d : Char} (hd : Instr.push d ∈ code) :
    Token.fact d ∈ ts := by
  have hmem := (Postfix.shunt_perm (show Postfix.shunt [] ts = .ok code from h)).mem_iff.mp hd
  simp only [List.filterMap_nil, List.append_nil, List.mem_filterMap] at hmem
  obtain ⟨t, ht, hinstr⟩ := hmem
  cases t <;> simp_all [Token.instr?]

/-! ## Computations that leave the stack as they found it -/

namespace Stacked

variable {α β : Type}

/-- Over the stack `s`, `x` does what `y` does, and when it ends normally it leaves `s` as it
found it: a simulation of inference over the stack by inference without it, where
`Infer.Related` relates two runs of inference. -/
def Restores (s : Ancestors) (x : Stacked α) (y : Infer α) : Prop :=
  x.run s = (fun a => (a, s)) <$> y

namespace Restores

variable {s : Ancestors}

/-- What such a computation does is its run from `s`, the stack dropped. -/
theorem run'_eq {x : Stacked α} {y : Infer α} (h : Restores s x y) : x.run' s = y := by
  rw [StateT.run'_eq, h, Functor.map_map]
  exact id_map y

/-- A computation that restores the stack does what its own run from `s` does. -/
theorem self {x : Stacked α} {y : Infer α} (h : Restores s x y) : Restores s x (x.run' s) := by
  rw [h.run'_eq]
  exact h

theorem pure (a : α) : Restores s (Pure.pure a : Stacked α) (Pure.pure a) := by
  simp [Restores]

theorem lift (x : Infer α) : Restores s (liftM x : Stacked α) x := by
  simp [Restores, StateT.run_monadLift, bind_pure_comp]

theorem throw (e : Fault) : Restores s (MonadExcept.throw e : Stacked α) (MonadExcept.throw e) :=
  rfl

theorem bind {x : Stacked α} {y : Infer α} {f : α → Stacked β} {g : α → Infer β}
    (hx : Restores s x y) (hf : ∀ a, Restores s (f a) (g a)) :
    Restores s (x >>= f) (y >>= g) := by
  rw [Restores, StateT.run_bind, show x.run s = _ from hx, bind_map_left, map_bind]
  exact congrArg (y >>= ·) (funext hf)

theorem ite {c : Prop} [Decidable c] {x₁ x₂ : Stacked α} {y₁ y₂ : Infer α}
    (h₁ : Restores s x₁ y₁) (h₂ : Restores s x₂ y₂) :
    Restores s (if c then x₁ else x₂) (if c then y₁ else y₂) := by
  split_ifs
  · exact h₁
  · exact h₂

/-- A step that cannot touch the memory: a fault ends both, a result is passed on. -/
theorem bind_lift {r : Except Fault α} {f : α → Stacked β} {g : α → Infer β}
    (h : ∀ a, r = .ok a → Restores s (f a) (g a)) :
    Restores s (liftM (Infer.lift r) >>= f) (Infer.lift r >>= g) := by
  cases r with
  | error e => rfl
  | ok a =>
      simp only [Infer.lift, Restores, StateT.run_bind, StateT.run_monadLift, pure_bind]
      exact h a rfl

theorem foldlM {f : β → α → Stacked β} {g : β → α → Infer β} {l : List α}
    (h : ∀ b, ∀ a ∈ l, Restores s (f b a) (g b a)) (init : β) :
    Restores s (l.foldlM f init) (l.foldlM g init) := by
  induction l generalizing init with
  | nil => exact pure init
  | cons a l ih =>
      simp only [List.foldlM_cons]
      exact bind (h init a List.mem_cons_self) fun b =>
        ih (fun b' a' ha' => h b' a' (List.mem_cons_of_mem _ ha')) b

theorem forM {f : α → Stacked PUnit} {g : α → Infer PUnit} (h : ∀ a, Restores s (f a) (g a))
    (l : List α) : Restores s (l.forM f) (l.forM g) := by
  induction l with
  | nil => exact pure _
  | cons a l ih => exact bind (h a) fun _ => ih

/-- A report that reads the table, written only when `verbose`, then the rest. -/
theorem report_then {y : PUnit → Stacked α} {y' : PUnit → Infer α}
    (hy : ∀ u, Restores s (y u) (y' u)) (verbose : Bool) (line : FactTable → String) :
    Restores s
      (if verbose = true then liftM table >>= fun t => liftM (say (line t)) >>= y else y ⟨⟩)
      (if verbose = true then table >>= fun t => say (line t) >>= y' else y' ⟨⟩) :=
  ite (bind (lift _) fun _ => bind (lift _) hy) (hy _)

/-- A fixed report, written only when `verbose`, then the rest. -/
theorem say_then {y : PUnit → Stacked α} {y' : PUnit → Infer α}
    (hy : ∀ u, Restores s (y u) (y' u)) (verbose : Bool) (line : String) :
    Restores s (if verbose = true then liftM (say line) >>= y else y ⟨⟩)
      (if verbose = true then say line >>= y' else y' ⟨⟩) :=
  ite (bind (lift _) hy) (hy _)

/-- Reading the table, then going on with it: the runs agree on a memory whose table the two
continuations agree on. -/
theorem run_table_bind {f : FactTable → Stacked α} {g : FactTable → Infer α} {m : Memory}
    (h : Restores s (f m.facts) (g m.facts)) :
    ((liftM table >>= f : Stacked α).run s).run m =
      ((fun a => (a, s)) <$> (table >>= g)).run m := by
  rw [map_bind, Infer.run_table_bind, ← show (f m.facts).run s = _ from h]
  rfl

/-- The stack machine over the shared stack runs as the plain one, as long as each letter its code
pushes is resolved so. -/
theorem postfix_run {R : Char → Stacked (Option Bool)} {R' : Char → Infer (Option Bool)}
    {code : Postfix} (hR : ∀ d, .push d ∈ code → Restores s (R d) (R' d))
    (stack : List Operand) :
    Restores s (Postfix.runStacked R stack code) (Postfix.run R' stack code) := by
  induction code generalizing stack with
  | nil =>
      rcases stack with _ | ⟨x, _ | ⟨y, below⟩⟩
      · rw [Postfix.runStacked.eq_2 _ _ (by simp), Postfix.run.eq_2 _ _ (by simp)]
        exact throw _
      · rw [Postfix.runStacked.eq_1, Postfix.run.eq_1]
        exact pure _
      · rw [Postfix.runStacked.eq_2 _ _ (by simp), Postfix.run.eq_2 _ _ (by simp)]
        exact throw _
  | cons i rest ih =>
      have hrest : ∀ d, .push d ∈ rest → Restores s (R d) (R' d) :=
        fun d hd => hR d (List.mem_cons_of_mem _ hd)
      cases i with
      | push c =>
          rw [Postfix.runStacked.eq_3, Postfix.run.eq_3]
          refine bind (hR c List.mem_cons_self) fun r => ?_
          cases r with
          | some b => exact ih hrest _
          | none => exact bind (lift _) fun _ => ih hrest _
      | apply c =>
          rcases stack with _ | ⟨x, _ | ⟨y, below⟩⟩
          · rw [Postfix.runStacked.eq_4, Postfix.run.eq_4]
            exact throw _
          · rw [Postfix.runStacked.eq_5, Postfix.run.eq_5]
            exact ite (ih hrest _) (bind (lift _) fun _ => throw _)
          · rw [Postfix.runStacked.eq_6, Postfix.run.eq_6]
            exact ite (ih hrest _) (ih hrest _)

end Restores

end Stacked

namespace Infer

open Stacked

variable {inSession : Bool} {rules : List Rule} {verbose : Bool} {s : Ancestors} {c : Char}

/-- Where a letter is unvisited, the other unvisited letters play no part in its resolution. -/
theorem resolveWith_of_mem {U : List Char} (hc : c ∈ U) (R : Char → Infer (Option Bool)) :
    resolveWith inSession rules verbose U R c = resolveWith inSession rules verbose [c] R c := by
  rw [resolveWith, resolveWith, if_pos hc, if_pos (List.mem_singleton_self c)]

/-- A letter already on the stack resolves to nothing and leaves the stack. -/
theorem resolveStackedWith_of_mem (h : c ∈ s.1) (R : Char → Stacked (Option Bool)) :
    Restores s (resolveStackedWith inSession rules verbose R c) (pure none) := by
  simp [Restores, resolveStackedWith, h]

/-- Any other letter is pushed for its resolution and popped after it, so the call leaves the stack
as it found it when the resolution leaves the pushed stack as it found that. -/
theorem resolveStackedWith_of_not_mem (h : c ∉ s.1) {R : Char → Stacked (Option Bool)}
    {y : Infer (Option Bool)}
    (hbody : Restores (s.push c h) (resolveStackedBody inSession rules verbose R c) y) :
    Restores s (resolveStackedWith inSession rules verbose R c) y := by
  simp [Restores, resolveStackedWith, h, show (resolveStackedBody inSession rules verbose R c).run
    (s.push c h) = _ from hbody]

/-- On a pushed letter, resolution over the stack runs as one level of the library's resolution,
as long as every letter of the rules is resolved so. -/
theorem resolveStackedBody_restores {R : Char → Stacked (Option Bool)}
    {R' : Char → Infer (Option Bool)}
    (hR : ∀ d ∈ rules.flatMap Rule.letters, Restores s (R d) (R' d)) :
    Restores s (resolveStackedBody inSession rules verbose R c)
      (resolveWith inSession rules verbose [c] R' c) := by
  rw [resolveStackedBody, resolveWith, if_pos (List.mem_singleton_self c)]
  refine Restores.report_then (fun _ => ?_) verbose _
  refine Restores.bind (Restores.lift _) fun t => Restores.ite (Restores.pure _) ?_
  refine Restores.report_then (fun _ => ?_) verbose _
  refine Restores.foldlM (fun acc r hr => ?_) _
  refine Restores.ite (Restores.bind (Restores.lift _) fun _ => Restores.pure _) ?_
  refine Restores.bind_lift fun code hcode => ?_
  refine Restores.report_then (fun _ => ?_) verbose _
  -- the letters the premise pushes are letters of a rule of the book
  have hpush : ∀ d, .push d ∈ code → Restores s (R d) (R' d) := by
    intro d hd
    refine hR d (List.mem_flatMap.mpr
      ⟨r, (List.mem_filter.mp hr).1, Rule.mem_letters.mpr (.inl ?_)⟩)
    exact List.mem_filterMap.mpr ⟨.fact d, Postfix.fact_of_push_mem hcode hd, rfl⟩
  refine Restores.bind (Restores.postfix_run hpush []) fun v => ?_
  refine Restores.say_then (fun _ => ?_) verbose _
  obtain ⟨premise, arrow, conclusion⟩ := r
  cases arrow with
  | implies =>
      exact Restores.say_then (fun _ => Restores.ite (Restores.lift _)
        (Restores.say_then (fun _ => Restores.pure _) verbose _)) verbose _
  | iff => exact Restores.say_then (fun _ => Restores.lift _) verbose _

/-- Every call of resolution over the stack that ends normally leaves the stack as it found it,
whatever the depth: by induction on the depth, each call pushes its letter, resolves it with
nested calls that each restore the pushed stack, and pops it. -/
theorem resolveStacked_restores (n : Nat) : ∀ (verbose : Bool) (c : Char) (s : Ancestors),
    Restores s (resolveStacked inSession rules n verbose c)
      ((resolveStacked inSession rules n verbose c).run' s) := by
  induction n with
  | zero => intro verbose c s; exact (Restores.pure none).self
  | succ n ih =>
      intro verbose c s
      rw [resolveStacked]
      by_cases h : c ∈ s.1
      · exact (resolveStackedWith_of_mem h _).self
      · exact (resolveStackedWith_of_not_mem h
          (resolveStackedBody_restores fun d _ => ih false d (s.push c h))).self

/-- Where the unvisited letters are, among the letters of the query and of the rules, exactly those
off the stack, resolution over the stack nested `n` deep runs as the library's resolution unrolled
`n` levels, with nothing resolved below the last. -/
theorem resolveStacked_restores_unrolled (n : Nat) :
    ∀ (verbose : Bool) (U : List Char) (c : Char) (s : Ancestors), U.Nodup →
      (∀ d ∈ c :: rules.flatMap Rule.letters, d ∈ U ↔ d ∉ s.1) →
      Restores s (resolveStacked inSession rules n verbose c)
        (resolveUnrolled inSession rules (fun _ _ => pure none) n verbose U c) := by
  induction n with
  | zero => intro _ _ _ _ _ _; exact Restores.pure none
  | succ n ih =>
      intro verbose U c s hU hoff
      rw [resolveStacked, resolveUnrolled]
      by_cases h : c ∈ s.1
      · have hc : c ∉ U := fun hc => (hoff c List.mem_cons_self).mp hc h
        rw [resolveWith_of_not_mem hc]
        exact resolveStackedWith_of_mem h _
      · have hc : c ∈ U := (hoff c List.mem_cons_self).mpr h
        rw [resolveWith_of_mem hc]
        refine resolveStackedWith_of_not_mem h (resolveStackedBody_restores fun d hd => ?_)
        -- one level deeper `c` is off the unvisited letters and on the stack
        refine ih false (U.erase c) d (s.push c h) (hU.erase c) fun e he => ?_
        have heL : e ∈ rules.flatMap Rule.letters := by
          rcases List.mem_cons.mp he with rfl | he
          · exact hd
          · exact he
        rw [hU.mem_erase_iff, hoff e (List.mem_cons_of_mem _ heL)]
        simp [Ancestors.push, and_comm]

/-- Each query answered over the stack leaves the stack as it found it. -/
theorem answerStacked_restores (q : Char) (s : Ancestors) :
    Restores s (answerStacked inSession verbose rules q)
      ((answerStacked inSession verbose rules q).run' s) := by
  unfold answerStacked
  exact (Restores.bind (Restores.lift _) fun _ => Restores.ite
    (Restores.bind (resolveStacked_restores _ _ _ _) fun _ => Restores.lift _)
    (Restores.lift _)).self

/-- Over a table that holds every letter of the rules, a query answered from the empty stack is
answered as the library answers it. -/
theorem answerStacked_run {m : Memory} (hm : m.facts.Names rules) (q : Char) :
    ((answerStacked inSession verbose rules q).run' Ancestors.empty).run m =
      (answer inSession verbose rules q).run m := by
  have hrun : ((answerStacked inSession verbose rules q).run Ancestors.empty).run m =
      ((fun u => (u, Ancestors.empty)) <$> answer inSession verbose rules q).run m := by
    unfold answerStacked answer
    apply Restores.run_table_bind
    by_cases hq : m.facts.contains q = true
    · simp only [hq, if_true]
      refine Restores.bind ?_ fun _ => Restores.lift _
      -- off the empty stack the unvisited letters are the table's, and the rules name no others
      have hoff : ∀ d ∈ q :: rules.flatMap Rule.letters,
          d ∈ m.facts.keys ↔ d ∉ Ancestors.empty.1 := by
        intro d hd
        simp only [Ancestors.empty, List.not_mem_nil, not_false_eq_true, iff_true]
        rcases List.mem_cons.mp hd with rfl | hd
        · simpa [FactTable.contains] using hq
        · obtain ⟨r, hr, hdr⟩ := List.mem_flatMap.mp hd
          exact hm r hr d hdr
      rw [← resolveUnrolled_eq_resolve (fun _ _ => pure none) _ verbose m.facts.keys q
        (Nat.lt_succ_of_le (countP_keys_le m.facts rules))]
      exact resolveStacked_restores_unrolled _ verbose _ q _ m.facts.nodup hoff
    · simp only [hq, Bool.false_eq_true, if_false]
      exact Restores.lift _
  rw [StateT.run'_eq, EStateM.run_map, hrun, EStateM.run_map]
  cases (answer inSession verbose rules q).run m <;> rfl

/-- Two loops over the same list agree from a memory where `P` holds, when their steps agree
wherever `P` holds and the second keeps `P`. -/
theorem run_forM_congr {α : Type} {P : Memory → Prop} {f g : α → Infer PUnit}
    (hfg : ∀ a m, P m → (f a).run m = (g a).run m)
    (hP : ∀ a ⦃m u m'⦄, P m → (g a).run m = .ok u m' → P m') (l : List α) :
    ∀ m : Memory, P m → (l.forM f).run m = (l.forM g).run m := by
  induction l with
  | nil => intro m _; rfl
  | cons a l ih =>
      intro m hm
      rw [List.forM.eq_2, List.forM.eq_2, EStateM.run_bind, EStateM.run_bind, hfg a m hm]
      cases h : (g a).run m with
      | ok u m' => exact ih m' (hP a hm h)
      | error e m' => rfl

/-- The stack of letters under resolution is balanced. Every call of resolution over it that ends
normally, at any depth and from any stack, leaves the stack exactly as it found it; and no stack
ever holds a letter twice, as `Ancestors` carries that and a letter is pushed only when it is not
there. Hence answering queries one after another over one shared stack answers each from the empty
stack, and over a table that holds every letter of the rules that is the library's answer. -/
theorem ancestor_stack_balanced (inSession verbose : Bool) (rules : List Rule)
    (queries : List Char) :
    (∀ n v c (s : Ancestors), (resolveStacked inSession rules n v c).run s =
        (fun a => (a, s)) <$> (resolveStacked inSession rules n v c).run' s) ∧
    (answerAllStacked inSession verbose rules queries).run Ancestors.empty =
      (fun u => (u, Ancestors.empty)) <$>
        queries.forM (fun q => (answerStacked inSession verbose rules q).run' Ancestors.empty) ∧
    ∀ m : Memory, m.facts.Names rules →
      ((answerAllStacked inSession verbose rules queries).run Ancestors.empty).run m =
        ((fun u => (u, Ancestors.empty)) <$> answerAll inSession verbose rules queries).run m := by
  have hbalanced : Restores Ancestors.empty (answerAllStacked inSession verbose rules queries)
      (queries.forM fun q => (answerStacked inSession verbose rules q).run' Ancestors.empty) :=
    Restores.forM (fun q => answerStacked_restores q _) queries
  refine ⟨fun n v c s => resolveStacked_restores n v c s, hbalanced, fun m hm => ?_⟩
  -- each answer keeps the letters of the table, so every query finds the rules' letters there
  have hanswers := run_forM_congr (fun q m hm => answerStacked_run hm q)
    (fun q _ _ _ hm h => hm.of_keys (KeepsKeys.answer inSession verbose rules q h)) queries m hm
  rw [show (answerAllStacked inSession verbose rules queries).run Ancestors.empty = _ from
    hbalanced, EStateM.run_map, EStateM.run_map, hanswers]
  rfl

theorem ancestor_stack_balanced_sample :
    let rules : List Rule :=
      [⟨[.fact 'B'], .implies, [.fact 'A']⟩, ⟨[.fact 'A'], .implies, [.fact 'B']⟩]
    let m : Memory := ⟨rules.foldl (fun t r => Rule.enter t r.premise r.conclusion) .empty, ""⟩
    m.facts.Names rules ∧
      ((answerAllStacked false false rules ['A', 'B']).run Ancestors.empty).run m =
        ((fun u => (u, Ancestors.empty)) <$> answerAll false false rules ['A', 'B']).run m := by
  intro rules m
  have hnames : m.facts.Names rules := by
    intro r hr d hd
    exact Rule.mem_keys_foldl_enter.mpr (.inr (List.mem_flatMap.mpr ⟨r, hr, hd⟩))
  exact ⟨hnames, (ancestor_stack_balanced false false rules ['A', 'B']).2.2 m hnames⟩

end Infer

end Entail
