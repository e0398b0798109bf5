import ParserAlgebra.Proofs.CallBounds

/-!
# The guard of a repetition

A repetition stops with an error of its own where its element succeeds and leaves no less than it
was given.  The guard is about applications of the element and nothing else: separators are free,
and whatever the parts hand back, the guard fires at the first application that stalls and nowhere
else.

* `Parser.StallsOn` — an application that the guard is about.
* `Repetition` — the four repetitions: a first application, and then rounds
  (`Repetition.calls_tree`, `Repetition.parse_tree`).
* `Repetition.Step` — what a run applies, told apart by its role: element and separator may be one
  and the same tree.
* `Repetition.Guarded` — where steps stop, and how they fail; it is kept round by round
  (`Plan.guarded_rounds`, `Plan.guarded_separatedRounds`).
* `Repetition.guard_fires_where_stalled` — the guard, for every run.
-/

set_option autoImplicit false

namespace ParserAlgebra

variable {ι σ ε α β γ : Type}

/-- The parser succeeds and leaves no less than it was given. -/
def Parser.StallsOn [Cursor ι σ] (p : Parser ι ε α) (s : ι) : Prop :=
  ∃ a r, p s = .success a r ∧ Cursor.length s ≤ Cursor.length r

theorem Parser.not_stallsOn_of_success [Cursor ι σ] {p : Parser ι ε α} {s r : ι} {a : α}
    (h : p s = .success a r) (hlt : Cursor.length r < Cursor.length s) : ¬ p.StallsOn s := by
  rintro ⟨b, t, hb, hle⟩
  cases h.symm.trans hb
  omega

theorem Parser.not_stallsOn_of_failure [Cursor ι σ] {p : Parser ι ε α} {s o : ι} {e : ε}
    (h : p s = .failure e o) : ¬ p.StallsOn s := by
  rintro ⟨b, t, hb, -⟩
  cases h.symm.trans hb

/-! ## Repetitions and their steps -/

/-- The repetitions, with their separator if they have one. -/
inductive Repetition (ι σ ε β : Type) : Type 1 where
  | many
  | many1
  | sepBy (sep : Grammar ι σ ε β)
  | sepBy1 (sep : Grammar ι σ ε β)

namespace Repetition

/-- The repetition of an element, as a tree. -/
def tree : Repetition ι σ ε β → Grammar ι σ ε α → Grammar ι σ ε (List α)
  | many, p => .many p
  | many1, p => .many1 p
  | sepBy sep, p => .sepBy sep p
  | sepBy1 sep, p => .sepBy1 sep p

/-- What the guard says that it expected. -/
def descriptor : Repetition ι σ ε β → String
  | many => "Many0"
  | many1 => "Many1"
  | sepBy _ => "SeparatedList0"
  | sepBy1 _ => "SeparatedList1"

def needsOne : Repetition ι σ ε β → Bool
  | many | sepBy _ => false
  | many1 | sepBy1 _ => true

def separator? : Repetition ι σ ε β → Option (Grammar ι σ ε β)
  | many | many1 => none
  | sepBy sep | sepBy1 sep => some sep

/-- A repetition applies its element, or its separator, at an input. -/
inductive Step (ι : Type) where
  | element (s : ι)
  | separator (s : ι)

/-- The call that a step makes. -/
def Step.call? (sep? : Option (Grammar ι σ ε β)) (p : Grammar ι σ ε α) :
    Step ι → Option (Call ι σ)
  | element s => some ⟨p, s⟩
  | separator s => sep?.map fun sep => ⟨sep, s⟩

variable [Cursor ι σ] [Symbol σ] [Diagnostic ε ι]

/-- The parser that a step applies fails with the error. -/
inductive Step.FailsWith (sep? : Option (Grammar ι σ ε β)) (p : Grammar ι σ ε α) (e : ε) :
    Step ι → Prop
  | element {s o : ι} (h : p.parse s = .failure e o) : FailsWith sep? p e (.element s)
  | separator {sep : Grammar ι σ ε β} {s o : ι} (hsep : sep? = some sep)
      (h : sep.parse s = .failure e o) : FailsWith sep? p e (.separator s)

/-- How a run comes out after its steps.  If an application of the element stalls, it is the last
step, and the guard fires at its input.  If none does, and the run `ends`, it fails only with the
fatal error of one of its steps. -/
structure Guarded (sep? : Option (Grammar ι σ ε β)) (p : Grammar ι σ ε α) (guard : String)
    (anchor : ι) (ends : Prop) (steps : List (Step ι)) (o : Outcome ι ε γ) : Prop where
  stops : ∀ ⦃before after : List (Step ι)⦄ ⦃u : ι⦄, steps = before ++ .element u :: after →
    p.parse.StallsOn u → after = [] ∧ o = .failure (Diagnostic.expected u guard) anchor
  passes : ends → (∀ u, .element u ∈ steps → ¬ p.parse.StallsOn u) →
    ∀ e t, o = .failure e t →
      t = anchor ∧ Diagnostic.isFatal e = true ∧ ∃ step ∈ steps, step.FailsWith sep? p e

theorem eq_of_singleton {x y : Step ι} {before after : List (Step ι)}
    (h : [x] = before ++ y :: after) : x = y ∧ after = [] := by
  cases before with
  | nil =>
      cases h
      exact ⟨rfl, rfl⟩
  | cons z before => cases before <;> cases h

namespace Guarded

variable {sep? : Option (Grammar ι σ ε β)} {p : Grammar ι σ ε α} {guard : String} {anchor : ι}
  {ends ends' : Prop} {steps : List (Step ι)} {o : Outcome ι ε γ}

theorem mono (h : Guarded sep? p guard anchor ends steps o) (hends : ends' → ends) :
    Guarded sep? p guard anchor ends' steps o where
  stops := h.stops
  passes hends' := h.passes (hends hends')

/-- A step that does not stall leaves everything to those behind it. -/
theorem cons {step : Step ι} (hstep : ∀ u, step = .element u → ¬ p.parse.StallsOn u)
    (h : Guarded sep? p guard anchor ends steps o) :
    Guarded sep? p guard anchor ends (step :: steps) o where
  stops before after u heq hu := by
    cases before with
    | nil =>
        cases heq
        exact absurd hu (hstep u rfl)
    | cons x before =>
        cases heq
        exact h.stops rfl hu
  passes hends hquiet e t ho := by
    obtain ⟨ht, he, x, hx, hfails⟩ :=
      h.passes hends (fun u hu => hquiet u (List.mem_cons_of_mem _ hu)) e t ho
    exact ⟨ht, he, x, List.mem_cons_of_mem _ hx, hfails⟩

theorem separator (h : Guarded sep? p guard anchor ends steps o) (s : ι) :
    Guarded sep? p guard anchor ends (.separator s :: steps) o :=
  h.cons (by rintro u ⟨⟩)

theorem element (h : Guarded sep? p guard anchor ends steps o) {s r : ι} {a : α}
    (hs : p.parse s = .success a r) (hlt : Cursor.length r < Cursor.length s) :
    Guarded sep? p guard anchor ends (.element s :: steps) o := by
  refine h.cons ?_
  rintro u ⟨⟩
  exact Parser.not_stallsOn_of_success hs hlt

/-- Nothing is said about a run that does not end. -/
theorem nil (hends : ¬ ends) (o : Outcome ι ε γ) : Guarded sep? p guard anchor ends [] o where
  stops before after u heq _ := by cases before <;> cases heq
  passes h := absurd h hends

/-- The guard fires. -/
theorem stalled {u : ι} (hu : p.parse.StallsOn u) :
    Guarded sep? p guard anchor ends [.element u]
      (.failure (Diagnostic.expected u guard) anchor : Outcome ι ε γ) where
  stops before after v heq _ := by
    obtain ⟨⟨⟩, hafter⟩ := eq_of_singleton heq
    exact ⟨hafter, rfl⟩
  passes _ hquiet _ _ _ := absurd hu (hquiet u List.mem_cons_self)

/-- A step fails, which ends the run, and is an error only if it is fatal. -/
theorem failed {step : Step ι} {e : ε} (h : step.FailsWith sep? p e) (a : γ) (r : ι) :
    Guarded sep? p guard anchor ends [step]
      (if Diagnostic.isFatal e then .failure e anchor else .success a r) where
  stops before after u heq hu := by
    obtain ⟨rfl, -⟩ := eq_of_singleton heq
    cases h with
    | element h => exact absurd hu (Parser.not_stallsOn_of_failure h)
  passes _ _ f t ho := by
    split at ho
    · rename_i he
      cases ho
      exact ⟨rfl, he, step, List.mem_cons_self, h⟩
    · cases ho

end Guarded

end Repetition

/-! ## Rounds -/

namespace Parser

variable [Cursor ι σ] [Diagnostic ε ι] {sep : Parser ι ε β} {p : Parser ι ε α} {s u r : ι} {b : β}
  {a : α} (hs : sep s = .success b u) (hu : p u = .success a r)
  (hru : Cursor.length r < Cursor.length u)

include hs hu hru

theorem gatherSep_of_shorter (hrs : Cursor.length r < Cursor.length s) (guard : String)
    (limit : Nat) :
    gatherSep sep p guard limit s = (gatherSep sep p guard limit r).map (prepend a) := by
  rw [gatherSep, hs]
  dsimp only
  rw [hu]
  dsimp only
  rw [if_pos hru, if_pos hrs]

theorem gatherSep_of_regrown (hrs : ¬ Cursor.length r < Cursor.length s) (guard : String)
    (limit : Nat) :
    gatherSep sep p guard (limit + 1) s = (gatherSep sep p guard limit r).map (prepend a) := by
  rw [gatherSep, hs]
  dsimp only
  rw [hu]
  dsimp only
  rw [if_pos hru, if_neg hrs]

theorem gatherSep_of_limit (hrs : ¬ Cursor.length r < Cursor.length s) (guard : String) :
    gatherSep sep p guard 0 s = none := by
  rw [gatherSep, hs]
  dsimp only
  rw [hu]
  dsimp only
  rw [if_pos hru, if_neg hrs]

end Parser

open Repetition (Guarded)

namespace Plan

variable [Cursor ι σ] [Symbol σ] [Diagnostic ε ι]

/-- The plan makes steps of a repetition, and comes out as they let it. -/
def IsGuarded (sep? : Option (Grammar ι σ ε β)) (p : Grammar ι σ ε α) (guard : String) (anchor : ι)
    (ends : Prop) (plan : Plan ι σ ε γ) : Prop :=
  ∃ steps : List (Repetition.Step ι),
    plan.calls.map some = steps.map (Repetition.Step.call? sep? p) ∧
      Guarded sep? p guard anchor ends steps plan.outcome

theorem guarded_rounds (sep? : Option (Grammar ι σ ε β)) (p : Grammar ι σ ε α) (guard : String)
    (anchor : ι) (vs : List α) (s : ι) :
    (rounds anchor ⟨p, p.plan⟩ guard vs s).IsGuarded sep? p guard anchor True := by
  fun_induction rounds anchor ⟨p, p.plan⟩ guard vs s with
  | case1 vs s ih =>
      unfold IsGuarded
      rw [calls_attempt_answer, outcome_attempt, Grammar.parser_part p.outcome_plan]
      cases hs : p.parse s with
      | failure e o => exact ⟨[.element s], rfl, .failed (.element hs) vs s⟩
      | success a r =>
          dsimp only
          by_cases hlt : Cursor.length r < Cursor.length s
          · obtain ⟨steps, hcalls, hguarded⟩ := ih a r hlt
            rw [dif_pos hlt]
            refine ⟨.element s :: steps, ?_, hguarded.element hs hlt⟩
            rw [List.map_cons, hcalls]
            rfl
          · rw [dif_neg hlt]
            exact ⟨[.element s], rfl, .stalled ⟨a, r, hs, Nat.le_of_not_lt hlt⟩⟩

theorem IsGuarded.mono {sep? : Option (Grammar ι σ ε β)} {p : Grammar ι σ ε α} {guard : String}
    {anchor : ι} {ends ends' : Prop} {plan : Plan ι σ ε γ}
    (h : plan.IsGuarded sep? p guard anchor ends) (hends : ends' → ends) :
    plan.IsGuarded sep? p guard anchor ends' := by
  obtain ⟨steps, hcalls, hguarded⟩ := h
  exact ⟨steps, hcalls, hguarded.mono hends⟩

/-- A round of a separator and an element leaves everything to the rounds behind it. -/
theorem IsGuarded.round {sep : Grammar ι σ ε β} {p : Grammar ι σ ε α} {guard : String} {anchor : ι}
    {ends ends' : Prop} {plan : Plan ι σ ε γ}
    (h : plan.IsGuarded (some sep) p guard anchor ends) {u r : ι} {a : α}
    (hu : p.parse u = .success a r) (hru : Cursor.length r < Cursor.length u)
    (hends : ends' → ends) (s : ι) :
    ∃ steps : List (Repetition.Step ι),
      (⟨sep, s⟩ :: ⟨p, u⟩ :: plan.calls).map some = steps.map (Repetition.Step.call? (some sep) p) ∧
        Guarded (some sep) p guard anchor ends' steps plan.outcome := by
  obtain ⟨steps, hcalls, hguarded⟩ := h
  refine ⟨.separator s :: .element u :: steps, ?_, ?_⟩
  · rw [List.map_cons, List.map_cons, hcalls]
    rfl
  · exact ((hguarded.mono hends).element hu hru).separator s

/-- As long as the limit is not met, separated rounds come out as their steps let them, whatever
their separators do. -/
theorem guarded_separatedRounds (sep : Grammar ι σ ε β) (p : Grammar ι σ ε α) (guard : String)
    (anchor : ι) (limit : Nat) (vs : List α) (s : ι) :
    (separatedRounds anchor ⟨sep, sep.plan⟩ ⟨p, p.plan⟩ guard limit vs s).IsGuarded (some sep) p
      guard anchor (Parser.gatherSep sep.parse p.parse guard limit s ≠ none) := by
  fun_induction separatedRounds anchor ⟨sep, sep.plan⟩ ⟨p, p.plan⟩ guard limit vs s with
  | case1 limit vs s ih ih' =>
      unfold IsGuarded
      rw [calls_attempt_answer, outcome_attempt, Grammar.parser_part sep.outcome_plan]
      cases hs : sep.parse s with
      | failure e o => exact ⟨[.separator s], rfl, .failed (.separator rfl hs) vs s⟩
      | success b u =>
          dsimp only
          rw [calls_attempt_answer, outcome_attempt, Grammar.parser_part p.outcome_plan]
          cases hu : p.parse u with
          | failure e o =>
              refine ⟨[.separator s, .element u], rfl, Guarded.separator ?_ s⟩
              exact .failed (.element hu) vs s
          | success a r =>
              dsimp only
              by_cases hru : Cursor.length r < Cursor.length u
              · rw [if_pos hru]
                by_cases hrs : Cursor.length r < Cursor.length s
                · rw [dif_pos hrs, Parser.gatherSep_of_shorter hs hu hru hrs]
                  exact (ih a r hrs).round hu hru (by simp) s
                · rw [dif_neg hrs]
                  cases limit with
                  | zero =>
                      have hends : ¬ Parser.gatherSep sep.parse p.parse guard 0 s ≠ none :=
                        not_not_intro (Parser.gatherSep_of_limit hs hu hru hrs guard)
                      refine ⟨[.separator s, .element u], rfl, Guarded.separator ?_ s⟩
                      exact (Guarded.nil hends _).element hu hru
                  | succ limit =>
                      rw [Parser.gatherSep_of_regrown hs hu hru hrs]
                      exact (ih' u a r).round hu hru (by simp) s
              · rw [if_neg hru]
                refine ⟨[.separator s, .element u], rfl, Guarded.separator ?_ s⟩
                exact .stalled ⟨a, r, hu, Nat.le_of_not_lt hru⟩

/-- Rounds that meet the limit are more than the limit. -/
theorem limit_lt_calls (sep : Grammar ι σ ε β) (p : Grammar ι σ ε α) (guard : String) (anchor : ι)
    (limit : Nat) (vs : List α) (s : ι)
    (h : Parser.gatherSep sep.parse p.parse guard limit s = none) :
    limit < (separatedRounds anchor ⟨sep, sep.plan⟩ ⟨p, p.plan⟩ guard limit vs s).calls.length := by
  have hsep := Grammar.parser_part sep.outcome_plan
  have hp := Grammar.parser_part p.outcome_plan
  fun_induction Parser.gatherSep sep.parse p.parse guard limit s generalizing vs with
  | case5 limit s b u hs a r hu hru hrs ih =>
      have hrest := ih (vs ++ [a]) (Option.map_eq_none_iff.1 h)
      rw [separatedRounds, calls_attempt_answer, hsep, hs]
      dsimp only
      rw [calls_attempt_answer, hp, hu]
      dsimp only
      rw [if_pos hru, dif_pos hrs, List.length_cons, List.length_cons]
      omega
  | case6 s b u hs a r hu hru hrs =>
      rw [separatedRounds, calls_attempt_answer]
      exact Nat.succ_pos _
  | case7 s b u hs a r hu hru hrs limit ih =>
      have hrest := ih (vs ++ [a]) (Option.map_eq_none_iff.1 h)
      rw [separatedRounds, calls_attempt_answer, hsep, hs]
      dsimp only
      rw [calls_attempt_answer, hp, hu]
      dsimp only
      rw [if_pos hru, dif_neg hrs, List.length_cons, List.length_cons]
      omega
  | _ => cases h

end Plan

/-! ## Repetitions -/

namespace Repetition

variable [Cursor ι σ] [Symbol σ] [Diagnostic ε ι]

/-- What a repetition does behind its first element. -/
def rounds (p : Grammar ι σ ε α) (anchor : ι) (vs : List α) (s : ι) :
    Repetition ι σ ε β → Plan ι σ ε (List α)
  | many => Plan.rounds anchor ⟨p, p.plan⟩ "Many0" vs s
  | many1 => Plan.rounds anchor ⟨p, p.plan⟩ "Many1" vs s
  | sepBy sep =>
    Plan.separatedRounds anchor ⟨sep, sep.plan⟩ ⟨p, p.plan⟩ "SeparatedList0" Parser.regrowthLimit
      vs s
  | sepBy1 sep =>
    Plan.separatedRounds anchor ⟨sep, sep.plan⟩ ⟨p, p.plan⟩ "SeparatedList1" Parser.regrowthLimit
      vs s

/-- Behind a first element that makes the input shorter there are rounds, and otherwise the guard
fires. -/
def next (k : Repetition ι σ ε β) (p : Grammar ι σ ε α) (s : ι) (a : α) (r : ι) :
    Plan ι σ ε (List α) :=
  if Cursor.length r < Cursor.length s then k.rounds p s [a] r
  else .answer (.failure (Diagnostic.expected s k.descriptor) s)

/-- All repetitions begin in the same way, apart from what they make of a missing first element. -/
theorem plan_tree (k : Repetition ι σ ε β) (p : Grammar ι σ ε α) (s : ι) :
    (k.tree p).plan s =
      if k.needsOne then Plan.require s ⟨p, p.plan⟩ s (k.next p s)
      else Plan.attempt s ⟨p, p.plan⟩ s (k.next p s) (.answer (.success [] s)) := by
  cases k with
  | many =>
      rw [tree, Grammar.plan, Plan.rounds]
      rfl
  | many1 => rfl
  | sepBy sep => rfl
  | sepBy1 sep => rfl

theorem calls_tree (k : Repetition ι σ ε β) (p : Grammar ι σ ε α) (s : ι) :
    (k.tree p).calls s = ⟨p, s⟩ ::
      match p.parse s with
      | .success a r => (k.next p s a r).calls
      | .failure _ _ => [] := by
  rw [Grammar.calls, plan_tree, ← Grammar.parser_part p.outcome_plan]
  split
  · exact Plan.calls_require s _ s _
  · exact Plan.calls_attempt_answer s _ s _ _

theorem parse_tree (k : Repetition ι σ ε β) (p : Grammar ι σ ε α) (s : ι) :
    (k.tree p).parse s =
      match p.parse s with
      | .success a r => (k.next p s a r).outcome
      | .failure e _ =>
        if Diagnostic.isFatal e || k.needsOne then .failure e s else .success [] s := by
  rw [← Grammar.outcome_plan, plan_tree]
  split
  · rename_i hone
    rw [Plan.outcome_require, Grammar.parser_part p.outcome_plan, hone]
    cases p.parse s with
    | success a r => rfl
    | failure e o => exact (if_pos (Bool.or_true _)).symm
  · rename_i hone
    rw [Plan.outcome_attempt, Grammar.parser_part p.outcome_plan, Bool.eq_false_iff.2 hone]
    cases p.parse s with
    | success a r => rfl
    | failure e o =>
        dsimp only
        rw [Bool.or_false]
        rfl

/-- The run ends by itself: the rounds of a list with separators have an answer, and are not stopped
by the limit on rounds that do not shorten the input. -/
def Ends (k : Repetition ι σ ε β) (p : Grammar ι σ ε α) (s : ι) : Prop :=
  ∀ sep, k.separator? = some sep → ∀ a r, p.parse s = .success a r →
    Cursor.length r < Cursor.length s →
    Parser.gatherSep sep.parse p.parse k.descriptor Parser.regrowthLimit r ≠ none

theorem guarded_rounds (k : Repetition ι σ ε β) (p : Grammar ι σ ε α) {s r : ι} {a : α}
    (hs : p.parse s = .success a r) (hlt : Cursor.length r < Cursor.length s) :
    (k.rounds p s [a] r).IsGuarded k.separator? p k.descriptor s (k.Ends p s) := by
  cases k with
  | many => exact (Plan.guarded_rounds none p "Many0" s [a] r).mono fun _ => trivial
  | many1 => exact (Plan.guarded_rounds none p "Many1" s [a] r).mono fun _ => trivial
  | sepBy sep =>
      refine (Plan.guarded_separatedRounds sep p "SeparatedList0" s _ [a] r).mono fun hends => ?_
      exact hends sep rfl a r hs hlt
  | sepBy1 sep =>
      refine (Plan.guarded_separatedRounds sep p "SeparatedList1" s _ [a] r).mono fun hends => ?_
      exact hends sep rfl a r hs hlt

theorem limit_lt_calls {k : Repetition ι σ ε β} {p : Grammar ι σ ε α} {s : ι} (h : ¬ k.Ends p s) :
    Parser.regrowthLimit < ((k.tree p).calls s).length := by
  refine Classical.byContradiction fun hle => h fun sep hsep a r hs hlt hnone => hle ?_
  rw [calls_tree, hs]
  dsimp only
  rw [next, if_pos hlt, List.length_cons]
  refine Nat.lt_succ_of_lt ?_
  cases k with
  | many => cases hsep
  | many1 => cases hsep
  | sepBy sep' =>
      cases hsep
      exact Plan.limit_lt_calls sep p "SeparatedList0" s _ [a] r hnone
  | sepBy1 sep' =>
      cases hsep
      exact Plan.limit_lt_calls sep p "SeparatedList1" s _ [a] r hnone

theorem limit_lt_steps {k : Repetition ι σ ε β} {p : Grammar ι σ ε α} {s : ι}
    {steps : List (Step ι)}
    (hsteps : ((k.tree p).calls s).map some = steps.map (Step.call? k.separator? p))
    (h : ¬ k.Ends p s) : Parser.regrowthLimit < steps.length := by
  have hlen := congrArg List.length hsteps
  rw [List.length_map, List.length_map] at hlen
  exact hlen ▸ limit_lt_calls h

theorem guarded_of_success (k : Repetition ι σ ε β) (p : Grammar ι σ ε α) {s r : ι} {a : α}
    (hs : p.parse s = .success a r) :
    ∃ steps : List (Step ι),
      ((k.tree p).calls s).map some = (.element s :: steps).map (Step.call? k.separator? p) ∧
      Guarded k.separator? p k.descriptor s (k.Ends p s) (.element s :: steps)
        ((k.tree p).parse s) := by
  rw [calls_tree, parse_tree, hs]
  dsimp only
  by_cases hlt : Cursor.length r < Cursor.length s
  · obtain ⟨steps, hcalls, hguarded⟩ := k.guarded_rounds p hs hlt
    rw [next, if_pos hlt]
    refine ⟨steps, ?_, hguarded.element hs hlt⟩
    rw [List.map_cons, hcalls]
    rfl
  · rw [next, if_neg hlt]
    exact ⟨[], rfl, .stalled ⟨a, r, hs, Nat.le_of_not_lt hlt⟩⟩

/-- **The guard fires exactly where an element stalls.**  A repetition applies its element at its
input, and then the separator, if it has one, and the element in turn.  If an application of the
element succeeds and leaves no less than it was given, whatever came before it, it is the last step,
and the run fails recoverably with the descriptor of the repetition alone, at the input of that
application, anchored at its own input.  If none does, a run that ends fails only with a fatal error
of one of its steps, or, where one element is needed, with the error of the first.  A run that does
not end by itself has more steps than the limit. -/
theorem guard_fires_where_stalled (k : Repetition ι σ (ParseError ι) β)
    (p : Grammar ι σ (ParseError ι) α) (s : ι) :
    ∃ steps : List (Step ι),
      ((k.tree p).calls s).map some = steps.map (Step.call? k.separator? p) ∧
      steps.head? = some (.element s) ∧
      (∀ before u after, steps = before ++ .element u :: after → p.parse.StallsOn u →
        after = [] ∧ (k.tree p).parse s = .failure (.new u [k.descriptor]) s) ∧
      (k.Ends p s → (∀ u, .element u ∈ steps → ¬ p.parse.StallsOn u) →
        ∀ e t, (k.tree p).parse s = .failure e t → t = s ∧
          (e.isFatal = true ∧ (∃ step ∈ steps, step.FailsWith k.separator? p e) ∨
            k.needsOne = true ∧ e.isFatal = false ∧ ∃ o, p.parse s = .failure e o)) ∧
      (¬ k.Ends p s → Parser.regrowthLimit < steps.length) := by
  cases hs : p.parse s with
  | success a r =>
      obtain ⟨steps, hcalls, hguarded⟩ := k.guarded_of_success p hs
      refine ⟨.element s :: steps, hcalls, rfl, ?_, ?_, limit_lt_steps hcalls⟩
      · exact fun before u after heq hu => hguarded.stops heq hu
      · intro hends hquiet e t h
        obtain ⟨ht, he⟩ := hguarded.passes hends hquiet e t h
        exact ⟨ht, .inl he⟩
  | failure e o =>
      -- nothing has been applied but the first element, and it does not stall
      have hcalls : ((k.tree p).calls s).map some =
          [.element s].map (Step.call? k.separator? p) := by
        rw [calls_tree, hs]
        rfl
      refine ⟨[.element s], hcalls, rfl, ?_, ?_, limit_lt_steps hcalls⟩
      · intro before u after heq hu
        obtain ⟨⟨⟩, -⟩ := eq_of_singleton heq
        exact absurd hu (Parser.not_stallsOn_of_failure hs)
      · intro _ _ f t h
        rw [parse_tree, hs] at h
        dsimp only at h
        split at h
        · rename_i hreported
          cases h
          refine ⟨rfl, ?_⟩
          cases he : e.isFatal with
          | true => exact .inl ⟨rfl, _, List.mem_cons_self, .element hs⟩
          | false =>
              refine .inr ⟨?_, rfl, o, rfl⟩
              simpa [Diagnostic.isFatal, he] using hreported
        · cases h

/-- Any number of digits, perhaps none. -/
def digits : Grammar Text Char (ParseError Text) (Span Text) := .primitive (.ofClass .digit)

/-- A client's own separator, which goes on with an unrelated text. -/
def elsewhere : Grammar Text Char (ParseError Text) (Span Text) :=
  .leaf fun s => .success ⟨s, s⟩ (.ofString (if s == .ofString "," then "2;" else "x"))

/-- On `1,` the first separator leads to `2;`, which undoes the progress of its round, and the
second one to `x`, where there are no digits. -/
theorem calls_elsewhere :
    ((sepBy1 elsewhere).tree digits).calls (.ofString "1,") =
      [⟨digits, .ofString "1,"⟩, ⟨elsewhere, .ofString ","⟩, ⟨digits, .ofString "2;"⟩,
        ⟨elsewhere, .ofString ";"⟩, ⟨digits, .ofString "x"⟩] := by
  have hlast (limit : Nat) (vs : List (Span Text)) :
      (Plan.separatedRounds (.ofString "1,") ⟨elsewhere, elsewhere.plan⟩ ⟨digits, digits.plan⟩
        "SeparatedList1" limit vs (.ofString ";")).calls =
      [⟨elsewhere, .ofString ";"⟩, ⟨digits, .ofString "x"⟩] := by
    rw [Plan.separatedRounds]
    rfl
  have hfirst (limit : Nat) (vs : List (Span Text)) :
      (Plan.separatedRounds (.ofString "1,") ⟨elsewhere, elsewhere.plan⟩ ⟨digits, digits.plan⟩
        "SeparatedList1" (limit + 1) vs (.ofString ",")).calls =
      [⟨elsewhere, .ofString ","⟩, ⟨digits, .ofString "2;"⟩, ⟨elsewhere, .ofString ";"⟩,
        ⟨digits, .ofString "x"⟩] := by
    rw [Plan.separatedRounds, ← hlast limit (vs ++ [⟨.ofString "2;", .ofString ";"⟩])]
    rfl
  obtain ⟨n, hn⟩ : ∃ n, Parser.regrowthLimit = n + 1 := ⟨2 ^ 64 - 1, by decide⟩
  rw [calls_tree]
  show ⟨digits, .ofString "1,"⟩ ::
    (Plan.separatedRounds (.ofString "1,") ⟨elsewhere, elsewhere.plan⟩ ⟨digits, digits.plan⟩
      "SeparatedList1" Parser.regrowthLimit _ (.ofString ",")).calls = _
  rw [hn, hfirst]

theorem guard_fires_where_stalled_digits :
    digits.parse.StallsOn (.ofString "x") ∧
    ((sepBy1 elsewhere).tree digits).parse (.ofString "1,") =
      .failure (.new (.ofString "x") ["SeparatedList1"]) (.ofString "1,") := by
  have hx : digits.parse.StallsOn (.ofString "x") := ⟨_, _, rfl, Nat.le_refl _⟩
  refine ⟨hx, ?_⟩
  obtain ⟨steps, hcalls, -, hstops, -⟩ :=
    guard_fires_where_stalled (.sepBy1 elsewhere) digits (.ofString "1,")
  rw [calls_elsewhere] at hcalls
  have hlast := congrArg List.getLast? hcalls
  rw [List.getLast?_map, List.getLast?_map] at hlast
  obtain ⟨step, hstep, hcall⟩ := Option.map_eq_some_iff.1 hlast.symm
  obtain ⟨before, rfl⟩ := List.getLast?_eq_some_iff.1 hstep
  cases step with
  | element u =>
      cases hcall
      exact (hstops before _ [] rfl hx).2
  | separator u => cases hcall

end Repetition

end ParserAlgebra
