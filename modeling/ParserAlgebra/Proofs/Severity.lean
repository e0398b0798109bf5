import ParserAlgebra.Proofs.Plan

/-!
# Fatal errors

A fatal error ends a run.  Whoever sees a part fail fatally answers at once, with the very same
error, so nothing is tried behind it: in the log of a run all that follows a fatal failure are the
returns of the trees around it, each with that error.  And no combinator makes an error fatal by
itself.

* `Plan.Orderly` — what the plan of every tree looks like along the calls that are made.
* `Grammar.run_induction` — every plan is orderly, so properties of runs are shown call by call.
* `Grammar.fatal_failure` — what a fatal failure does to a run, and where it comes from.
-/

set_option autoImplicit false

namespace ParserAlgebra

variable {ι σ ε α β : Type}

/-! ## Errors -/

/-- Only client functions and the library's `fatal` make fatal errors. -/
structure Diagnostic.Lenient (ε : Type) {ι : Type} [Diagnostic ε ι] : Prop where
  expected (s : ι) (d : String) : isFatal (expected s d : ε) = false
  needMoreInput (s : ι) : isFatal (needMoreInput s : ε) = false
  expectedEnd (s : ι) : isFatal (expectedEnd s : ε) = false
  merge {e f : ε} (he : isFatal e = false) (hf : isFatal f = false) : isFatal (merge e f) = false

theorem ParseError.isFatal_merge [Cursor ι σ] {e f : ParseError ι} (he : e.isFatal = false)
    (hf : f.isFatal = false) : (e.merge f).isFatal = false := by
  unfold ParseError.merge
  split
  · exact hf
  · split
    · unfold ParseError.isFatal at he hf ⊢
      rw [Option.isSome_eq_false_iff, Option.isNone_iff_eq_none] at he hf
      simp [ParseError.add, he, hf]
    · exact he

theorem ParseError.lenient [Cursor ι σ] : Diagnostic.Lenient (ParseError ι) where
  expected _ _ := rfl
  needMoreInput _ := rfl
  expectedEnd _ := rfl
  merge := ParseError.isFatal_merge

/-- The errors that combinators make, or keep, when no part of them has failed fatally. -/
inductive Diagnostic.Made [Diagnostic ε ι] : ε → Prop
  | expected (s : ι) (d : String) : Made (expected s d)
  | expectedEnd (s : ι) : Made (expectedEnd s)
  | kept {e : ε} (he : isFatal e = false) : Made e
  | merged {e f : ε} (he : Made e) (hf : Made f) : Made (merge e f)

theorem Diagnostic.Made.recoverable [Diagnostic ε ι] (hε : Diagnostic.Lenient ε) {e : ε}
    (h : Diagnostic.Made e) : Diagnostic.isFatal e = false := by
  induction h with
  | expected s d => exact hε.expected s d
  | expectedEnd s => exact hε.expectedEnd s
  | kept he => exact he
  | merged _ _ ihe ihf => exact hε.merge ihe ihf

/-- Of the library's own seeds, only those with a cause become fatal errors. -/
theorem Rejection.eq_fatal_of_isFatal [Diagnostic ε ι] (hε : Diagnostic.Lenient ε) {s : ι}
    {x : Rejection} (h : Diagnostic.isFatal (Seed.raise s x : ε) = true) : ∃ c, x = .fatal c := by
  cases x with
  | needMoreInput => exact absurd ((hε.needMoreInput s).symm.trans h) Bool.false_ne_true
  | expectedEnd => exact absurd ((hε.expectedEnd s).symm.trans h) Bool.false_ne_true
  | expected d => exact absurd ((hε.expected s d).symm.trans h) Bool.false_ne_true
  | fatal c => exact ⟨c, rfl⟩

/-- The errors that come into a run from outside of its combinators: the failures of its leaves, and
the refusals of the functions that transform its values. -/
inductive Grammar.Source [Cursor ι σ] [Symbol σ] :
    {ε α : Type} → [Diagnostic ε ι] → Grammar ι σ ε α → ι → ε → Prop
  | leaf {ε α : Type} [Diagnostic ε ι] {p : Parser ι ε α} {s o : ι} {e : ε}
      (h : p s = .failure e o) : Source (.leaf p) s e
  | primitive {α : Type} [Diagnostic (ParseError ι) ι] {p : Primitive ι σ α} {s o : ι}
      {e : ParseError ι} (h : p.parse s = .failure e o) : Source (.primitive p) s e
  | integerAs {α : Type} [Diagnostic (ParseError ι) ι] {read : List Char → Except Cause α}
      {s o : ι} {e : ParseError ι} (h : Parser.integerAs read s = .failure e o) :
      Source (.integerAs read) s e
  | tryMap {ε ρ α β : Type} [Diagnostic ε ι] [Seed ρ ε ι] {f : α → Except ρ β}
      {p : Grammar ι σ ε α} {s r : ι} {a : α} {x : ρ} (hp : p.parse s = .success a r)
      (hf : f a = .error x) : Source (.tryMap f p) s (Seed.raise s x)

/-! ## Orderly plans -/

/-- What a plan does along the calls that are made.  After a fatal failure of a call it answers with
the same error.  Otherwise it fails with an error that combinators make, or with one from outside
that satisfies `Source`.  `Child` holds of all the trees that it calls. -/
inductive Plan.Orderly [Cursor ι σ] [Symbol σ] [Diagnostic ε ι] (Source : ε → Prop)
    (Child : ∀ β : Type, Grammar ι σ ε β → ι → Prop) {α : Type} : Plan ι σ ε α → Prop
  | success (a : α) (r : ι) : Orderly Source Child (.answer (.success a r))
  | made {e : ε} (he : Diagnostic.Made e) (o : ι) : Orderly Source Child (.answer (.failure e o))
  | brought {e : ε} (he : Source e) (o : ι) : Orderly Source Child (.answer (.failure e o))
  | stop {β : Type} {g : Grammar ι σ ε β} {s o o' : ι} {e : ε} {go : Outcome ι ε β → Plan ι σ ε α}
      (hg : Child β g s) (h : g.parse s = .failure e o) (he : Diagnostic.isFatal e = true)
      (hgo : go (.failure e o) = .answer (.failure e o')) :
      Orderly Source Child (.call g s (g.plan s) go)
  | next {β : Type} {g : Grammar ι σ ε β} {s : ι} {go : Outcome ι ε β → Plan ι σ ε α}
      (hg : Child β g s) (h : ∀ e o, g.parse s = .failure e o → Diagnostic.isFatal e = false)
      (hgo : Orderly Source Child (go (g.parse s))) : Orderly Source Child (.call g s (g.plan s) go)

namespace Plan.Orderly

variable [Cursor ι σ] [Symbol σ] [Diagnostic ε ι] {Source : ε → Prop}
  {Child : ∀ β : Type, Grammar ι σ ε β → ι → Prop} {anchor s : ι}

/-- A call whose failures are told apart by whether they are fatal. -/
theorem call {g : Grammar ι σ ε β} {go : Outcome ι ε β → Plan ι σ ε α} (hg : Child β g s)
    (hsuccess : ∀ b r, g.parse s = .success b r → (go (.success b r)).Orderly Source Child)
    (hfatal : ∀ e o, Diagnostic.isFatal e = true →
      ∃ o', go (.failure e o) = .answer (.failure e o'))
    (hrecoverable : ∀ e o, Diagnostic.isFatal e = false →
      (go (.failure e o)).Orderly Source Child) :
    (Plan.call g s (g.plan s) go).Orderly Source Child := by
  cases h : g.parse s with
  | success b r =>
      refine .next hg (fun e o hf => ?_) (by rw [h]; exact hsuccess b r h)
      rw [h] at hf
      cases hf
  | failure e o =>
      cases he : Diagnostic.isFatal e with
      | true =>
          obtain ⟨o', hgo⟩ := hfatal e o he
          exact .stop hg h he hgo
      | false =>
          refine .next hg (fun f t hf => ?_) (by rw [h]; exact hrecoverable e o he)
          rw [h] at hf
          cases hf
          exact he

section Calls

variable {g : Grammar ι σ ε β} {next : β → ι → Plan ι σ ε α} (hg : Child β g s)

include hg

theorem require (hnext : ∀ b r, g.parse s = .success b r → (next b r).Orderly Source Child) :
    (Plan.require anchor ⟨g, g.plan⟩ s next).Orderly Source Child := by
  refine call hg hnext (fun e o _ => ⟨anchor, rfl⟩) fun e o he => ?_
  exact .made (.kept he) anchor

theorem attempt {otherwise : Plan ι σ ε α} (hnext : ∀ b r, (next b r).Orderly Source Child)
    (hother : otherwise.Orderly Source Child) :
    (Plan.attempt anchor ⟨g, g.plan⟩ s next otherwise).Orderly Source Child := by
  refine call hg (fun b r _ => hnext b r) (fun e o he => ⟨anchor, if_pos he⟩) fun e o he => ?_
  simp only [he]
  exact hother

end Calls

theorem alternatives {ps : List (Part ι σ ε α)}
    (hps : ∀ p ∈ ps, ∃ g : Grammar ι σ ε α, p = ⟨g, g.plan⟩ ∧ Child α g s) (tried : Option ε)
    (htried : ∀ e ∈ tried, Diagnostic.Made e) :
    (Plan.alternatives s tried ps).Orderly Source Child := by
  induction ps generalizing tried with
  | nil =>
      refine .made ?_ s
      cases tried with
      | none => exact .expected s "alternative"
      | some e => exact htried e rfl
  | cons p ps ih =>
      obtain ⟨g, rfl, hg⟩ := hps p List.mem_cons_self
      refine call hg (fun a r _ => .success a r) (fun e o he => ⟨o, if_pos he⟩) fun f o hf => ?_
      simp only [hf]
      refine ih (fun q hq => hps q (List.mem_cons_of_mem _ hq)) _ ?_
      intro e he
      cases he
      cases tried with
      | none => exact .kept hf
      | some e => exact .merged (htried e rfl) (.kept hf)

theorem inTurn {ps : List (Part ι σ ε α)}
    (hps : ∀ p ∈ ps, ∃ g : Grammar ι σ ε α, p = ⟨g, g.plan⟩ ∧ ∀ s, Child α g s) (vs : List α)
    (s : ι) : (Plan.inTurn anchor vs ps s).Orderly Source Child := by
  induction ps generalizing vs s with
  | nil => exact .success vs s
  | cons p ps ih =>
      obtain ⟨g, rfl, hg⟩ := hps p List.mem_cons_self
      refine require (hg s) fun a r _ => ?_
      exact ih (fun q hq => hps q (List.mem_cons_of_mem _ hq)) _ r

theorem rounds {g : Grammar ι σ ε α} (hg : ∀ s, Child α g s) (guard : String) (vs : List α)
    (s : ι) : (Plan.rounds anchor ⟨g, g.plan⟩ guard vs s).Orderly Source Child := by
  fun_induction Plan.rounds anchor ⟨g, g.plan⟩ guard vs s with
  | case1 vs s ih =>
      refine attempt (hg s) (fun a r => ?_) (.success vs s)
      split
      · rename_i hlt
        exact ih a r hlt
      · exact .made (.expected s guard) anchor

theorem separatedRounds {sep : Grammar ι σ ε β} {g : Grammar ι σ ε α} (hsep : ∀ s, Child β sep s)
    (hg : ∀ s, Child α g s) (guard : String) (limit : Nat) (vs : List α) (s : ι) :
    (Plan.separatedRounds anchor ⟨sep, sep.plan⟩ ⟨g, g.plan⟩ guard limit vs s).Orderly
      Source Child := by
  fun_induction Plan.separatedRounds anchor ⟨sep, sep.plan⟩ ⟨g, g.plan⟩ guard limit vs s with
  | case1 limit vs s ihlt ihlimit =>
      refine attempt (hsep s) (fun _ u => ?_) (.success vs s)
      refine attempt (hg u) (fun a r => ?_) (.success vs s)
      split
      · split
        · rename_i hlt
          exact ihlt a r hlt
        · cases limit with
          | zero => exact .made (.expected anchor guard) anchor
          | succ limit => exact ihlimit u a r
      · exact .made (.expected u guard) anchor

theorem search {g : Grammar ι σ ε α} (hg : ∀ s, Child α g s) (s : ι) :
    (Plan.search anchor ⟨g, g.plan⟩ s).Orderly Source Child := by
  fun_induction Plan.search anchor ⟨g, g.plan⟩ s with
  | case1 s h => exact .made (.expected anchor "TakeUntil") anchor
  | case2 s h ih => exact attempt (hg s) (fun _ _ => .success _ s) ih

end Plan.Orderly

namespace Grammar

variable [Cursor ι σ] [Symbol σ]

/-- A property holds of every run if it holds of those whose plan is orderly and calls only runs that
have the property. -/
theorem run_induction {motive : ∀ {ε α : Type} [Diagnostic ε ι], Grammar ι σ ε α → ι → Prop}
    (hrun : ∀ {ε α : Type} [Diagnostic ε ι] (g : Grammar ι σ ε α) (s : ι),
      (g.plan s).Orderly (g.Source s) (fun _ p t => motive p t) → motive g s)
    [inst : Diagnostic ε ι] (g : Grammar ι σ ε α) (hg : g.KeepsErrors) (s : ι) : motive g s := by
  induction g generalizing inst s with
  | leaf p =>
      refine hrun _ s ?_
      unfold plan
      cases h : p s with
      | success a r => exact .success a r
      | failure e o => exact .brought (.leaf h) o
  | primitive p =>
      refine hrun _ s ?_
      unfold plan
      cases h : p.parse s with
      | success a r => exact .success a r
      | failure e o => exact .brought (.primitive h) o
  | integerAs read =>
      refine hrun _ s ?_
      unfold plan
      cases h : Parser.integerAs read s with
      | success a r => exact .success a r
      | failure e o => exact .brought (.integerAs h) o
  | succeed a => exact hrun _ s (.success a s)
  | fail d => exact hrun _ s (.made (.expected s d) s)
  | endOfInput =>
      refine hrun _ s ?_
      unfold plan Parser.endOfInput
      split
      · exact .success () s
      · exact .made (.expectedEnd s) s
  | map f p ih =>
      refine hrun _ s (.call (ih hg.2 s) (fun a r _ => .success (f a) r)
        (fun e o _ => ⟨o, rfl⟩) fun e o he => ?_)
      exact .made (.kept he) o
  | tryMap f p ih =>
      refine hrun _ s (.require (ih hg.2 s) fun a r hp => ?_)
      cases hf : f a with
      | ok b => exact .success b r
      | error x => exact .brought (.tryMap hp hf) s
  | mapError f p => exact absurd trivial hg.1
  | label d p ih =>
      refine hrun _ s (.call (ih hg.2 s) (fun a r _ => .success a r)
        (fun e o he => ⟨o, if_pos he⟩) fun e o he => ?_)
      simp only [he]
      exact .made (.expected _ d) o
  | verify check p ih =>
      refine hrun _ s (.require (ih hg.2 s) fun a r _ => ?_)
      split
      · exact .success a r
      · exact .made (.expected s "verify") s
  | complete p ih =>
      refine hrun _ s (.call (ih hg.2 s) (fun a r _ => ?_) (fun e o _ => ⟨o, rfl⟩) fun e o he => ?_)
      · dsimp only
        split
        · exact .success a r
        · exact .made (.expectedEnd r) s
      · exact .made (.kept he) o
  | notFollowedBy p ih =>
      refine hrun _ s (.attempt (ih hg.2 s) (fun a r => ?_) (.success () s))
      exact .made (.expected s "not") s
  | optional p ih =>
      exact hrun _ s (.attempt (ih hg.2 s) (fun a r => .success (some a) r) (.success none s))
  | withDefault a p ih => exact hrun _ s (.attempt (ih hg.2 s) .success (.success a s))
  | lookahead p ih =>
      exact hrun _ s (.require (ih hg.2 s) fun a _ _ => .success a s)
  | spanOf p ih =>
      exact hrun _ s (.require (ih hg.2 s) fun _ r _ => .success _ r)
  | yielding b p ih =>
      exact hrun _ s (.require (ih hg.2 s) fun _ r _ => .success b r)
  | takeUntil p ih => exact hrun _ s (.search (ih hg.2) s)
  | orElse p q ihp ihq =>
      refine hrun _ s (.call (ihp hg.2.1 s) (fun a r _ => .success a r)
        (fun e o he => ⟨o, if_pos he⟩) fun e o he => ?_)
      simp only [he]
      refine .call (ihq hg.2.2 s) (fun a r _ => .success a r)
        (fun f t hf => ⟨t, if_pos hf⟩) fun f t hf => ?_
      simp only [hf]
      exact .made (.merged (.kept he) (.kept hf)) s
  | firstOf n ps ih =>
      refine hrun _ s (.alternatives (fun p hp => ?_) none fun e he => ?_)
      · obtain ⟨i, rfl⟩ := List.mem_ofFn.1 hp
        exact ⟨ps i, rfl, ih i (hg.2 i) s⟩
      · cases he
  | pair p q ihp ihq =>
      refine hrun _ s (.require (ihp hg.2.1 s) fun _ r _ => ?_)
      exact .require (ihq hg.2.2 r) fun _ t _ => .success _ t
  | separatedPair p sep q ihp ihsep ihq =>
      refine hrun _ s (.require (ihp hg.2.1 s) fun _ r _ => ?_)
      refine .require (ihsep hg.2.2.1 r) fun _ t _ => ?_
      exact .require (ihq hg.2.2.2 t) fun _ u _ => .success _ u
  | seqRight p q ihp ihq =>
      refine hrun _ s (.require (ihp hg.2.1 s) fun _ r _ => ?_)
      exact .require (ihq hg.2.2 r) fun b t _ => .success b t
  | seqLeft p q ihp ihq =>
      refine hrun _ s (.require (ihp hg.2.1 s) fun a r _ => ?_)
      exact .require (ihq hg.2.2 r) fun _ t _ => .success a t
  | between p q close ihp ihq ihclose =>
      refine hrun _ s (.require (ihp hg.2.1 s) fun _ r _ => ?_)
      refine .require (ihq hg.2.2.1 r) fun b t _ => ?_
      exact .require (ihclose hg.2.2.2 t) fun _ u _ => .success b u
  | sequence n ps ih =>
      refine hrun _ s (.inTurn (fun p hp => ?_) [] s)
      obtain ⟨i, rfl⟩ := List.mem_ofFn.1 hp
      exact ⟨ps i, rfl, ih i (hg.2 i)⟩
  | times p n ih =>
      refine hrun _ s ?_
      unfold plan
      split
      · exact .made (.expected s "Count") s
      · refine .inTurn (fun q hq => ?_) [] s
        exact ⟨p, List.eq_of_mem_replicate hq, ih hg.2⟩
  | many p ih => exact hrun _ s (.rounds (ih hg.2) "Many0" [] s)
  | many1 p ih =>
      refine hrun _ s (.require (ih hg.2 s) fun a r _ => ?_)
      split
      · exact .rounds (ih hg.2) "Many1" [a] r
      · exact .made (.expected s "Many1") s
  | sepBy sep p ihsep ihp =>
      refine hrun _ s (.attempt (ihp hg.2.2 s) (fun a r => ?_) (.success [] s))
      split
      · exact .separatedRounds (ihsep hg.2.1) (ihp hg.2.2) "SeparatedList0" _ [a] r
      · exact .made (.expected s "SeparatedList0") s
  | sepBy1 sep p ihsep ihp =>
      refine hrun _ s (.require (ihp hg.2.2 s) fun a r _ => ?_)
      split
      · exact .separatedRounds (ihsep hg.2.1) (ihp hg.2.2) "SeparatedList1" _ [a] r
      · exact .made (.expected s "SeparatedList1") s

end Grammar

/-! ## Events -/

namespace Event

/-- The event is about a tree with errors of `ε`. -/
inductive Reports (ε : Type) : Event ι σ → Prop
  | enter {α : Type} (g : Grammar ι σ ε α) (s : ι) : Reports ε (.enter g s)
  | leave {α : Type} (g : Grammar ι σ ε α) (s : ι) (o : Outcome ι ε α) : Reports ε (.leave g s o)

/-- A tree is left with the error `e`. -/
inductive FailsWith {ε : Type} (e : ε) : Event ι σ → Prop
  | leave {α : Type} (g : Grammar ι σ ε α) (s o : ι) : FailsWith e (.leave g s (.failure e o))

end Event

/-- If `before` is a fatal failure, then `after` is the return of a tree with the same error. -/
def Event.SettledBy (ε : Type) {ι σ : Type} [Diagnostic ε ι] (before after : Event ι σ) : Prop :=
  ∀ e : ε, before.FailsWith e → Diagnostic.isFatal e = true → after.FailsWith e

/-- What happened before the outcome `o`.  After a fatal failure there are only returns with the same
error, and it is the outcome. -/
structure Outcome.Settles [Diagnostic ε ι] (log : List (Event ι σ)) (o : Outcome ι ε α) : Prop where
  reports : ∀ ev ∈ log, ev.Reports ε
  pairwise : log.Pairwise (Event.SettledBy ε)
  outcome : ∀ ev ∈ log, ∀ e : ε, ev.FailsWith e → Diagnostic.isFatal e = true →
    ∃ t, o = .failure e t

namespace Outcome.Settles

variable [Diagnostic ε ι] {log : List (Event ι σ)} {o : Outcome ι ε α}

theorem nil (o : Outcome ι ε α) : o.Settles ([] : List (Event ι σ)) := by
  refine ⟨?_, .nil, ?_⟩ <;> intro ev hev <;> exact absurd hev List.not_mem_nil

theorem enter (h : o.Settles log) (g : Grammar ι σ ε β) (s : ι) :
    o.Settles (.enter g s :: log) := by
  refine ⟨fun ev hev => ?_, List.pairwise_cons.2 ⟨fun ev _ e hf => ?_, h.pairwise⟩,
    fun ev hev e hf he => ?_⟩
  · rcases List.mem_cons.1 hev with rfl | hev
    · exact .enter g s
    · exact h.reports ev hev
  · cases hf
  · rcases List.mem_cons.1 hev with rfl | hev
    · cases hf
    · exact h.outcome ev hev e hf he

theorem leave (h : o.Settles log) (g : Grammar ι σ ε α) (s : ι) :
    o.Settles (log ++ [.leave g s o]) := by
  refine ⟨fun ev hev => ?_, List.pairwise_append.2 ⟨h.pairwise, List.pairwise_singleton _ _, ?_⟩,
    fun ev hev e hf he => ?_⟩
  · rcases List.mem_append.1 hev with hev | hev
    · exact h.reports ev hev
    · rw [List.mem_singleton.1 hev]
      exact .leave g s o
  · intro ev hev last hlast e hf he
    obtain ⟨t, rfl⟩ := h.outcome ev hev e hf he
    rw [List.mem_singleton.1 hlast]
    exact .leave g s t
  · rcases List.mem_append.1 hev with hev | hev
    · exact h.outcome ev hev e hf he
    · rw [List.mem_singleton.1 hev] at hf
      cases hf with
      | leave g s t => exact ⟨t, rfl⟩

end Outcome.Settles

variable [Cursor ι σ] [Symbol σ]

theorem Plan.Orderly.settles [Diagnostic ε ι] {Source : ε → Prop} {plan : Plan ι σ ε α}
    (h : plan.Orderly Source fun _ g s => (g.parse s).Settles (g.log s)) :
    plan.outcome.Settles plan.log := by
  induction h with
  | success a r => exact .nil _
  | made he o => exact .nil _
  | brought he o => exact .nil _
  | @stop β g s o o' e go hg h he hgo =>
      rw [Grammar.log_call, Plan.outcome_call, Grammar.outcome_plan, h, hgo, Plan.log,
        List.append_nil, Plan.outcome_answer]
      refine ⟨hg.reports, hg.pairwise, fun ev hev f hf hfatal => ?_⟩
      obtain ⟨t, ht⟩ := hg.outcome ev hev f hf hfatal
      rw [h] at ht
      cases ht
      exact ⟨o', rfl⟩
  | @next β g s go hg h _ ih =>
      -- no event of the call is a fatal failure, or the call would have failed so
      have hcall : ∀ ev ∈ g.log s, ∀ e : ε, ev.FailsWith e → Diagnostic.isFatal e ≠ true := by
        intro ev hev e hf he
        obtain ⟨t, ht⟩ := hg.outcome ev hev e hf he
        exact absurd ((h e t ht).symm.trans he) Bool.false_ne_true
      rw [Grammar.log_call, Plan.outcome_call, Grammar.outcome_plan]
      refine ⟨fun ev hev => ?_, List.pairwise_append.2 ⟨hg.pairwise, ih.pairwise, ?_⟩, ?_⟩
      · rcases List.mem_append.1 hev with hev | hev
        · exact hg.reports ev hev
        · exact ih.reports ev hev
      · intro ev hev _ _ e hf he
        exact absurd he (hcall ev hev e hf)
      · intro ev hev e hf he
        rcases List.mem_append.1 hev with hev | hev
        · exact absurd he (hcall ev hev e hf)
        · exact ih.outcome ev hev e hf he

namespace Grammar

theorem settles_log [Diagnostic ε ι] (g : Grammar ι σ ε α) (hg : g.KeepsErrors) (s : ι) :
    (g.parse s).Settles (g.log s) := by
  refine run_induction (motive := fun g s => (g.parse s).Settles (g.log s)) ?_ g hg s
  intro ε α _ g s h
  have hplan := h.settles
  rw [outcome_plan] at hplan
  rw [log_eq]
  exact (hplan.leave g s).enter g s

end Grammar

/-! ## Where fatal errors come from -/

/-- Some tree in the log has failed with `e`, and has not got it from any of its parts. -/
def Grammar.Entered [Diagnostic ε ι] (e : ε) (log : List (Event ι σ)) : Prop :=
  ∃ (β : Type) (p : Grammar ι σ ε β) (t o : ι),
    Event.leave p t (.failure e o) ∈ log ∧ p.Source t e

/-- A fatal failure of the run on `s` has come into it somewhere. -/
def Grammar.FatalEntered [Diagnostic ε ι] (g : Grammar ι σ ε α) (s : ι) : Prop :=
  Diagnostic.Lenient ε → ∀ e o, g.parse s = .failure e o → Diagnostic.isFatal e = true →
    Entered e (g.log s)

theorem Plan.Orderly.entered [Diagnostic ε ι] {Source : ε → Prop} {plan : Plan ι σ ε α}
    (h : plan.Orderly Source fun _ g s => g.FatalEntered s) (hε : Diagnostic.Lenient ε) {e : ε}
    {o : ι} (hfail : plan.outcome = .failure e o) (he : Diagnostic.isFatal e = true) :
    Source e ∨ Grammar.Entered e plan.log := by
  induction h with
  | success a r => cases hfail
  | made hmade t =>
      cases hfail
      exact absurd ((hmade.recoverable hε).symm.trans he) Bool.false_ne_true
  | brought hsource t =>
      cases hfail
      exact .inl hsource
  | @stop β g s u u' f go hg h hf hgo =>
      rw [Plan.outcome_call, Grammar.outcome_plan, h, hgo] at hfail
      cases hfail
      obtain ⟨γ, p, t, o', hev, hsource⟩ := hg hε e u h he
      rw [Grammar.log_call]
      exact .inr ⟨γ, p, t, o', List.mem_append_left _ hev, hsource⟩
  | @next β g s go _ _ _ ih =>
      rw [Plan.outcome_call, Grammar.outcome_plan] at hfail
      rw [Grammar.log_call]
      rcases ih hfail with hsource | ⟨γ, p, t, o', hev, hsource⟩
      · exact .inl hsource
      · exact .inr ⟨γ, p, t, o', List.mem_append_right _ hev, hsource⟩

namespace Grammar

theorem fatalEntered [Diagnostic ε ι] (g : Grammar ι σ ε α) (hg : g.KeepsErrors) (s : ι) :
    g.FatalEntered s := by
  refine run_induction (motive := FatalEntered) ?_ g hg s
  intro ε α _ g s hplan hε e o h he
  rw [← outcome_plan] at h
  rcases hplan.entered hε h he with hsource | ⟨β, p, t, o', hev, hsource⟩
  · refine ⟨α, g, s, o, ?_, hsource⟩
    rw [log_eq, ← outcome_plan, h]
    simp
  · exact ⟨β, p, t, o', mem_log_of_mem_plan hev, hsource⟩

/-- **Fatal errors.**  In a tree that keeps its errors, a fatal failure of any part ends the run: from
then on there are only returns, each with that very error, and so does the whole run fail.  If
neither what the library expects nor a merge of recoverable errors is fatal, then a run fails fatally
only with the failure of a leaf or the refusal of a client's function, and of the library's own seeds
those with a cause, and only those, refuse fatally. -/
theorem fatal_failure [Diagnostic ε ι] (g : Grammar ι σ ε α) (hg : g.KeepsErrors) (s : ι) :
    (∀ ev ∈ g.log s, ev.Reports ε) ∧
    (g.log s).Pairwise (Event.SettledBy ε) ∧
    (∀ ev ∈ g.log s, ∀ e : ε, ev.FailsWith e → Diagnostic.isFatal e = true →
      ∃ o, g.parse s = .failure e o) ∧
    (Diagnostic.Lenient ε →
      (∀ e o, g.parse s = .failure e o → Diagnostic.isFatal e = true →
        ∃ (β : Type) (p : Grammar ι σ ε β) (t o' : ι),
          Event.leave p t (.failure e o') ∈ g.log s ∧ p.Source t e) ∧
      ∀ (t : ι) (x : Rejection),
        (Diagnostic.isFatal (Seed.raise t x : ε) = true → ∃ c, x = .fatal c) ∧
        ((∀ c, Diagnostic.isFatal (Diagnostic.fatal t c : ε) = true) → (∃ c, x = .fatal c) →
          Diagnostic.isFatal (Seed.raise t x : ε) = true)) := by
  have hlog := g.settles_log hg s
  refine ⟨hlog.reports, hlog.pairwise, hlog.outcome, fun hε => ⟨fun e o h he => ?_, ?_⟩⟩
  · exact g.fatalEntered hg s hε e o h he
  · intro t x
    refine ⟨fun h => x.eq_fatal_of_isFatal hε h, fun hfatal hx => ?_⟩
    obtain ⟨c, rfl⟩ := hx
    exact hfatal c

/-- Three symbols, none of which may be a `b`. -/
def noneIsB : Grammar Text Char (ParseError Text) (Option (List Char)) :=
  .optional (.times (.orElse (.primitive (.char 'a'))
    (.tryMap (fun c => if c == 'b' then .error (Rejection.fatal (.custom "b")) else .ok c)
      (.primitive .anySymbol))) 3)

theorem fatal_failure_noneIsB :
    noneIsB.KeepsErrors ∧ Diagnostic.Lenient (ParseError Text) ∧
    noneIsB.parse (.ofString "aba") =
      .failure (Diagnostic.fatal (.ofString "ba") (.custom "b")) (.ofString "aba") ∧
    (noneIsB.log (.ofString "aba")).Pairwise (Event.SettledBy (ParseError Text)) ∧
    ∃ (β : Type) (p : Grammar Text Char (ParseError Text) β) (t o : Text),
      Event.leave p t (.failure (Diagnostic.fatal (.ofString "ba") (.custom "b")) o) ∈
        noneIsB.log (.ofString "aba") ∧
      p.Source t (Diagnostic.fatal (Text.ofString "ba") (.custom "b") : ParseError Text) := by
  have hkeeps : noneIsB.KeepsErrors := by
    refine ⟨?_, ?_, ?_, ?_, ?_, ?_⟩ <;> exact not_false
  have hrun : noneIsB.parse (.ofString "aba") =
      .failure (Diagnostic.fatal (.ofString "ba") (.custom "b")) (.ofString "aba") := rfl
  have h := noneIsB.fatal_failure hkeeps (.ofString "aba")
  exact ⟨hkeeps, ParseError.lenient, hrun, h.2.1,
    (h.2.2.2 ParseError.lenient).1 _ _ hrun rfl⟩

end Grammar

end ParserAlgebra
