import ParserAlgebra.Proofs.Plan
import ParserAlgebra.Proofs.Consumption

/-!
# The places of a run

A run looks ahead, goes back and tries again, but it never leaves its input: as long as the parsers
of a client advance, every tree that is entered in the run is entered at a suffix of the input.

* `Event.Within` — what happens at a suffix of an input, in a tree whose leaves advance.
* `Plan.Stays` — plans in which everything happens within one input, call by call.
* `Grammar.log_within` — all that happens in a run.
-/

set_option autoImplicit false

namespace ParserAlgebra

open Cursor (Suffix)

variable {ι σ ε ε' α β : Type} [Cursor ι σ]

/-- It happens at a suffix of `whole`, and in a tree whose leaves advance. -/
def Event.Within (whole : ι) : Event ι σ → Prop
  | .enter g s => Suffix s whole ∧ g.LeavesSatisfy Parser.Advances
  | .leave g s _ => Suffix s whole ∧ g.LeavesSatisfy Parser.Advances

theorem Event.Within.mono {s whole : ι} {ev : Event ι σ} (h : ev.Within s) (hs : Suffix s whole) :
    ev.Within whole := by
  cases ev with
  | enter g t => exact ⟨h.1.trans hs, h.2⟩
  | leave g t o => exact ⟨h.1.trans hs, h.2⟩

/-- All that the plan brings about happens within `whole`. -/
def Plan.Stays (whole : ι) (plan : Plan ι σ ε α) : Prop := ∀ ev ∈ plan.log, ev.Within whole

theorem Plan.Stays.answer (whole : ι) (o : Outcome ι ε α) :
    (Plan.answer o : Plan ι σ ε α).Stays whole := by
  intro ev h
  cases h

variable [Symbol σ]

/-- A tree whose leaves advance and whose runs stay within their inputs. -/
structure Grammar.Stays [Diagnostic ε ι] (g : Grammar ι σ ε α) : Prop where
  leaves : g.LeavesSatisfy Parser.Advances
  within {s : ι} {ev : Event ι σ} (h : ev ∈ g.log s) : ev.Within s

theorem Grammar.Stays.of_plan [Diagnostic ε ι] {g : Grammar ι σ ε α}
    (hg : g.LeavesSatisfy Parser.Advances) (hplan : ∀ s, (g.plan s).Stays s) : g.Stays where
  leaves := hg
  within {s ev} h := by
    rw [log_eq, List.mem_cons, List.mem_append, List.mem_singleton] at h
    rcases h with rfl | h | rfl
    · exact ⟨.refl s, hg⟩
    · exact hplan s ev h
    · exact ⟨.refl s, hg⟩

/-! ## Plans -/

namespace Plan.Stays

variable [Diagnostic ε ι] {whole anchor s : ι}

section Calls

variable {g : Grammar ι σ ε β} (hg : g.Stays) (hs : Suffix s whole)

include hg hs

theorem call {go : Outcome ι ε β → Plan ι σ ε α}
    (hsuccess : ∀ b r, Suffix r whole → (go (.success b r)).Stays whole)
    (hfailure : ∀ e o, (go (.failure e o)).Stays whole) :
    (Plan.call g s (g.plan s) go).Stays whole := by
  intro ev h
  rw [Grammar.log_call, List.mem_append] at h
  rcases h with h | h
  · exact (hg.within h).mono hs
  · cases hp : g.parse s with
    | success b r =>
        rw [hp] at h
        exact hsuccess b r ((g.parse_advances hg.leaves hp).trans hs) ev h
    | failure e o =>
        rw [hp] at h
        exact hfailure e o ev h

theorem require {next : β → ι → Plan ι σ ε α}
    (hnext : ∀ b r, Suffix r whole → (next b r).Stays whole) :
    (Plan.require anchor ⟨g, g.plan⟩ s next).Stays whole :=
  call hg hs hnext fun _ _ => answer whole _

theorem attempt {next : β → ι → Plan ι σ ε α} {otherwise : Plan ι σ ε α}
    (hnext : ∀ b r, Suffix r whole → (next b r).Stays whole) (hother : otherwise.Stays whole) :
    (Plan.attempt anchor ⟨g, g.plan⟩ s next otherwise).Stays whole := by
  refine call hg hs hnext fun e o => ?_
  dsimp only
  split
  · exact answer whole _
  · exact hother

end Calls

theorem translate {g : Grammar ι σ ε α} (hg : g.Stays) (hs : Suffix s whole) (f : ε → ε') :
    (Plan.translate g s (g.plan s) f).Stays whole := by
  intro ev h
  rw [Grammar.log_translate] at h
  exact (hg.within h).mono hs

theorem alternatives {ps : List (Part ι σ ε α)}
    (hps : ∀ p ∈ ps, ∃ g : Grammar ι σ ε α, p = ⟨g, g.plan⟩ ∧ g.Stays) (tried : Option ε) :
    (Plan.alternatives s tried ps).Stays s := by
  induction ps generalizing tried with
  | nil => exact answer s _
  | cons p ps ih =>
      obtain ⟨g, rfl, hg⟩ := hps p List.mem_cons_self
      refine call hg (.refl s) (fun _ _ _ => answer s _) fun f o => ?_
      dsimp only
      split
      · exact answer s _
      · exact ih (fun q hq => hps q (List.mem_cons_of_mem _ hq)) _

theorem inTurn {ps : List (Part ι σ ε α)}
    (hps : ∀ p ∈ ps, ∃ g : Grammar ι σ ε α, p = ⟨g, g.plan⟩ ∧ g.Stays) (vs : List α)
    (hs : Suffix s whole) : (Plan.inTurn anchor vs ps s).Stays whole := by
  induction ps generalizing vs s with
  | nil => exact answer whole _
  | cons p ps ih =>
      obtain ⟨g, rfl, hg⟩ := hps p List.mem_cons_self
      refine require hg hs fun a r hr => ?_
      exact ih (fun q hq => hps q (List.mem_cons_of_mem _ hq)) _ hr

theorem rounds {g : Grammar ι σ ε α} (hg : g.Stays) (guard : String) (vs : List α)
    (hs : Suffix s whole) : (Plan.rounds anchor ⟨g, g.plan⟩ guard vs s).Stays whole := by
  fun_induction Plan.rounds anchor ⟨g, g.plan⟩ guard vs s with
  | case1 vs s ih =>
      refine attempt hg hs (fun a r hr => ?_) (answer whole _)
      split
      · rename_i hlt
        exact ih a r hlt hr
      · exact answer whole _

theorem separatedRounds {sep : Grammar ι σ ε β} {g : Grammar ι σ ε α} (hsep : sep.Stays)
    (hg : g.Stays) (guard : String) (limit : Nat) (vs : List α) (hs : Suffix s whole) :
    (Plan.separatedRounds anchor ⟨sep, sep.plan⟩ ⟨g, g.plan⟩ guard limit vs s).Stays whole := by
  fun_induction Plan.separatedRounds anchor ⟨sep, sep.plan⟩ ⟨g, g.plan⟩ guard limit vs s with
  | case1 limit vs s ihlt ihlimit =>
      refine attempt hsep hs (fun _ u hu => ?_) (answer whole _)
      refine attempt hg hu (fun a r hr => ?_) (answer whole _)
      split
      · split
        · rename_i hlt
          exact ihlt a r hlt hr
        · cases limit with
          | zero => exact answer whole _
          | succ limit => exact ihlimit u a r hr
      · exact answer whole _

theorem search {g : Grammar ι σ ε α} (hg : g.Stays) (hs : Suffix s whole) :
    (Plan.search anchor ⟨g, g.plan⟩ s).Stays whole := by
  fun_induction Plan.search anchor ⟨g, g.plan⟩ s with
  | case1 s h => exact answer whole _
  | case2 s h ih =>
      exact attempt hg hs (fun _ _ _ => answer whole _) (ih ((Cursor.suffix_tail s).trans hs))

end Plan.Stays

/-! ## Trees -/

namespace Grammar

theorem stays [inst : Diagnostic ε ι] (g : Grammar ι σ ε α)
    (hg : g.LeavesSatisfy Parser.Advances) : g.Stays := by
  induction g generalizing inst with
  | leaf | primitive | integerAs | succeed | fail | endOfInput =>
      exact .of_plan hg fun s => .answer s _
  | map f p ih =>
      exact .of_plan hg fun s => .call (ih hg.2) (.refl s) (fun _ _ _ => .answer s _)
        fun _ _ => .answer s _
  | tryMap f p ih =>
      refine .of_plan hg fun s => .require (ih hg.2) (.refl s) fun a r _ => ?_
      cases f a <;> exact .answer s _
  | mapError f p ih => exact .of_plan hg fun s => .translate (ih hg.2) (.refl s) f
  | label d p ih =>
      refine .of_plan hg fun s => .call (ih hg.2) (.refl s) (fun _ _ _ => .answer s _)
        fun e o => ?_
      dsimp only
      split <;> exact .answer s _
  | verify check p ih =>
      refine .of_plan hg fun s => .require (ih hg.2) (.refl s) fun a r _ => ?_
      split <;> exact .answer s _
  | complete p ih =>
      refine .of_plan hg fun s => .call (ih hg.2) (.refl s) (fun a r _ => ?_)
        fun _ _ => .answer s _
      dsimp only
      split <;> exact .answer s _
  | notFollowedBy p ih | optional p ih | withDefault a p ih =>
      exact .of_plan hg fun s => .attempt (ih hg.2) (.refl s) (fun _ _ _ => .answer s _)
        (.answer s _)
  | lookahead p ih | spanOf p ih | yielding b p ih =>
      exact .of_plan hg fun s => .require (ih hg.2) (.refl s) fun _ _ _ => .answer s _
  | takeUntil p ih => exact .of_plan hg fun s => .search (ih hg.2) (.refl s)
  | orElse p q ihp ihq =>
      refine .of_plan hg fun s => .call (ihp hg.2.1) (.refl s) (fun _ _ _ => .answer s _)
        fun e o => ?_
      dsimp only
      split
      · exact .answer s _
      · refine .call (ihq hg.2.2) (.refl s) (fun _ _ _ => .answer s _) fun f t => ?_
        dsimp only
        split <;> exact .answer s _
  | firstOf n ps ih =>
      refine .of_plan hg fun s => .alternatives (fun p hp => ?_) none
      obtain ⟨i, rfl⟩ := List.mem_ofFn.1 hp
      exact ⟨ps i, rfl, ih i (hg.2 i)⟩
  | pair p q ihp ihq | seqRight p q ihp ihq | seqLeft p q ihp ihq =>
      refine .of_plan hg fun s => .require (ihp hg.2.1) (.refl s) fun _ r hr => ?_
      exact .require (ihq hg.2.2) hr fun _ _ _ => .answer s _
  | separatedPair p sep q ihp ihsep ihq | between p sep q ihp ihsep ihq =>
      refine .of_plan hg fun s => .require (ihp hg.2.1) (.refl s) fun _ r hr => ?_
      refine .require (ihsep hg.2.2.1) hr fun _ t ht => ?_
      exact .require (ihq hg.2.2.2) ht fun _ _ _ => .answer s _
  | sequence n ps ih =>
      refine .of_plan hg fun s => .inTurn (fun p hp => ?_) [] (.refl s)
      obtain ⟨i, rfl⟩ := List.mem_ofFn.1 hp
      exact ⟨ps i, rfl, ih i (hg.2 i)⟩
  | times p n ih =>
      refine .of_plan hg fun s => ?_
      unfold plan
      split
      · exact .answer s _
      · exact .inTurn (fun q hq => ⟨p, List.eq_of_mem_replicate hq, ih hg.2⟩) [] (.refl s)
  | many p ih => exact .of_plan hg fun s => .rounds (ih hg.2) _ [] (.refl s)
  | many1 p ih =>
      refine .of_plan hg fun s => .require (ih hg.2) (.refl s) fun a r hr => ?_
      split
      · exact .rounds (ih hg.2) _ [a] hr
      · exact .answer s _
  | sepBy sep p ihsep ihp =>
      refine .of_plan hg fun s => .attempt (ihp hg.2.2) (.refl s) (fun a r hr => ?_) (.answer s _)
      split
      · exact .separatedRounds (ihsep hg.2.1) (ihp hg.2.2) _ _ [a] hr
      · exact .answer s _
  | sepBy1 sep p ihsep ihp =>
      refine .of_plan hg fun s => .require (ihp hg.2.2) (.refl s) fun a r hr => ?_
      split
      · exact .separatedRounds (ihsep hg.2.1) (ihp hg.2.2) _ _ [a] hr
      · exact .answer s _

/-- All that happens in a run happens at suffixes of its input. -/
theorem log_within [Diagnostic ε ι] (g : Grammar ι σ ε α) (hg : g.LeavesSatisfy Parser.Advances)
    {s : ι} {ev : Event ι σ} (h : ev ∈ g.log s) : ev.Within s :=
  (g.stays hg).within h

end Grammar

end ParserAlgebra
