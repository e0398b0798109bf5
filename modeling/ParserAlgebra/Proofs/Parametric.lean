import Mathlib.Data.List.Forall2
import ParserAlgebra.Proofs.PrimitiveAlike

/-!
# Trees at two kinds of input

A tree whose client functions look at symbols only as characters, and at places not at all, can be
written for any kind of input.  Its two instances are *alike* (`Grammar.Alike`): the same node
everywhere, with client functions that give related results for related arguments.  Alike trees
have alike outcomes at corresponding places (`Grammar.Alike.parse`).

The relation goes through the tree together with the relations between its values and between its
errors, so that nothing is assumed about the types that a client brings along.
-/

set_option autoImplicit false

namespace ParserAlgebra

variable {ι₁ σ₁ ι₂ σ₂ ε₁ ε₂ α₁ α₂ β₁ β₂ : Type}

/-! ## Plans -/

/-- Plans whose outcomes are alike. -/
def Plan.Matches (At : ι₁ → ι₂ → Prop) (Q : ε₁ → ε₂ → Prop) (R : α₁ → α₂ → Prop)
    (P : Plan ι₁ σ₁ ε₁ α₁) (P' : Plan ι₂ σ₂ ε₂ α₂) : Prop :=
  Outcome.Alike At Q R P.outcome P'.outcome

/-- Parts whose plans match at corresponding places. -/
def Part.Alike (At : ι₁ → ι₂ → Prop) (Q : ε₁ → ε₂ → Prop) (R : α₁ → α₂ → Prop)
    (p : Part ι₁ σ₁ ε₁ α₁) (q : Part ι₂ σ₂ ε₂ α₂) : Prop :=
  ∀ ⦃s : ι₁⦄ ⦃t : ι₂⦄, At s t → Plan.Matches At Q R (p.plan s) (q.plan t)

namespace Plan.Matches

variable {At : ι₁ → ι₂ → Prop} {Q : ε₁ → ε₂ → Prop} {R : α₁ → α₂ → Prop} {S : β₁ → β₂ → Prop}
  {s anchor : ι₁} {t anchor' : ι₂}

theorem success {a : α₁} {b : α₂} {r : ι₁} {u : ι₂} (ha : R a b) (hr : At r u) :
    Matches At Q R (.answer (.success a r) : Plan ι₁ σ₁ ε₁ α₁)
      (.answer (.success b u) : Plan ι₂ σ₂ ε₂ α₂) :=
  Outcome.Alike.success ha hr

theorem failure {e : ε₁} {f : ε₂} (he : Q e f) (hst : At s t) :
    Matches At Q R (.answer (.failure e s) : Plan ι₁ σ₁ ε₁ α₁)
      (.answer (.failure f t) : Plan ι₂ σ₂ ε₂ α₂) :=
  Outcome.Alike.failure he hst

/-- Two calls match if what they do with alike outcomes does. -/
theorem call {g : Grammar ι₁ σ₁ ε₁ β₁} {g' : Grammar ι₂ σ₂ ε₂ β₂} {body : Plan ι₁ σ₁ ε₁ β₁}
    {body' : Plan ι₂ σ₂ ε₂ β₂} {go : Outcome ι₁ ε₁ β₁ → Plan ι₁ σ₁ ε₁ α₁}
    {go' : Outcome ι₂ ε₂ β₂ → Plan ι₂ σ₂ ε₂ α₂} (hbody : Matches At Q S body body')
    (hsuccess : ∀ b b' r u, S b b' → At r u →
      Matches At Q R (go (.success b r)) (go' (.success b' u)))
    (hfailure : ∀ e f o o', Q e f → At o o' →
      Matches At Q R (go (.failure e o)) (go' (.failure f o'))) :
    Matches At Q R (.call g s body go) (.call g' t body' go') := by
  unfold Matches at hbody ⊢
  rw [outcome_call, outcome_call]
  generalize body.outcome = x at hbody ⊢
  generalize body'.outcome = y at hbody ⊢
  cases hbody with
  | success hb hr => exact hsuccess _ _ _ _ hb hr
  | failure he ho => exact hfailure _ _ _ _ he ho

theorem translate {ε₁' ε₂' : Type} {Q' : ε₁' → ε₂' → Prop} {g : Grammar ι₁ σ₁ ε₁ α₁}
    {g' : Grammar ι₂ σ₂ ε₂ α₂} {body : Plan ι₁ σ₁ ε₁ α₁} {body' : Plan ι₂ σ₂ ε₂ α₂} {f : ε₁ → ε₁'}
    {f' : ε₂ → ε₂'} (hbody : Matches At Q R body body')
    (hf : ∀ d e, Q d e → Q' (f d) (f' e)) :
    Matches At Q' R (.translate g s body f) (.translate g' t body' f') := by
  unfold Matches at hbody ⊢
  rw [Plan.outcome, Plan.outcome, Parser.mapError, Parser.mapError]
  generalize body.outcome = x at hbody ⊢
  generalize body'.outcome = y at hbody ⊢
  cases hbody with
  | success hb hr => exact .success hb hr
  | failure he ho => exact .failure (hf _ _ he) ho

section Calls

variable {p : Part ι₁ σ₁ ε₁ β₁} {q : Part ι₂ σ₂ ε₂ β₂} {next : β₁ → ι₁ → Plan ι₁ σ₁ ε₁ α₁}
  {next' : β₂ → ι₂ → Plan ι₂ σ₂ ε₂ α₂} (hanchor : At anchor anchor') (hpq : Part.Alike At Q S p q)
  (hst : At s t)
  (hnext : ∀ b b' r u, S b b' → At r u → Matches At Q R (next b r) (next' b' u))

include hanchor hpq hst hnext

theorem require :
    Matches At Q R (Plan.require anchor p s next) (Plan.require anchor' q t next') := by
  refine call (hpq hst) hnext fun e f _ _ he _ => ?_
  exact .failure he hanchor

theorem attempt [Diagnostic ε₁ ι₁] [Diagnostic ε₂ ι₂] (hQ : Diagnostic.Alike At Q)
    {otherwise : Plan ι₁ σ₁ ε₁ α₁} {otherwise' : Plan ι₂ σ₂ ε₂ α₂}
    (hother : Matches At Q R otherwise otherwise') :
    Matches At Q R (Plan.attempt anchor p s next otherwise)
      (Plan.attempt anchor' q t next' otherwise') := by
  refine call (hpq hst) hnext fun e f _ _ he _ => ?_
  dsimp only
  rw [hQ.isFatal he]
  split
  · exact .failure he hanchor
  · exact hother

end Calls

/-! ## Loops -/

theorem inTurn {ps : List (Part ι₁ σ₁ ε₁ α₁)} {qs : List (Part ι₂ σ₂ ε₂ α₂)}
    (hps : List.Forall₂ (Part.Alike At Q R) ps qs) (hanchor : At anchor anchor') {vs : List α₁}
    {vs' : List α₂} (hvs : List.Forall₂ R vs vs') (hst : At s t) :
    Matches At Q (List.Forall₂ R) (Plan.inTurn anchor vs ps s) (Plan.inTurn anchor' vs' qs t) := by
  induction hps generalizing vs vs' s t with
  | nil => exact .success hvs hst
  | cons hpq _ ih =>
      refine require hanchor hpq hst fun a b r u hab hru => ?_
      exact ih (List.rel_append hvs (.cons hab .nil)) hru

variable [Diagnostic ε₁ ι₁] [Diagnostic ε₂ ι₂] (hQ : Diagnostic.Alike At Q)

include hQ

/-- The errors of alternatives that have been tried on the two sides. -/
theorem alternatives {ps : List (Part ι₁ σ₁ ε₁ α₁)} {qs : List (Part ι₂ σ₂ ε₂ α₂)}
    (hps : List.Forall₂ (Part.Alike At Q R) ps qs) (hst : At s t) {tried : Option ε₁}
    {tried' : Option ε₂} (htried : Option.Rel (fun e f => Q e f ∧ Diagnostic.Made e) tried tried') :
    Matches At Q R (Plan.alternatives s tried ps) (Plan.alternatives t tried' qs) := by
  induction hps generalizing tried tried' with
  | nil =>
      cases htried with
      | none => exact .failure (hQ.expected hst "alternative") hst
      | some he => exact .failure he.1 hst
  | cons hpq _ ih =>
      refine call (hpq hst) (fun a b r u ha hr => .success ha hr) fun e f o o' he ho => ?_
      dsimp only
      rw [← hQ.isFatal he]
      split
      · exact .failure he ho
      · rename_i hfatal
        have hkept : Diagnostic.Made e := .kept (Bool.eq_false_iff.2 hfatal)
        refine ih ?_
        cases htried with
        | none => exact .some ⟨he, hkept⟩
        | some hd => exact .some ⟨hQ.merge hd.1 he hd.2 hkept, .merged hd.2 hkept⟩

variable [Cursor ι₁ σ₁] [Symbol σ₁] [Cursor ι₂ σ₂] [Symbol σ₂] (h : Correspondence At)

include h

/-- A plan that goes on if there is progress from `s`. -/
theorem guarded (guard : String) {r : ι₁} {u : ι₂} (hru : At r u) (hst : At s t)
    {P : Plan ι₁ σ₁ ε₁ α₁} {P' : Plan ι₂ σ₂ ε₂ α₂} (hP : Matches At Q R P P') :
    Matches At Q R
      (if Cursor.length r < Cursor.length s then P
        else .answer (.failure (Diagnostic.expected s guard) s))
      (if Cursor.length u < Cursor.length t then P'
        else .answer (.failure (Diagnostic.expected t guard) t)) := by
  have hshorter := h.shorter hru hst
  by_cases hr : Cursor.length r < Cursor.length s
  · rw [if_pos hr, if_pos (hshorter.1 hr)]
    exact hP
  · rw [if_neg hr, if_neg (mt hshorter.2 hr)]
    exact .failure (hQ.expected hst guard) hst

theorem rounds {p : Part ι₁ σ₁ ε₁ α₁} {q : Part ι₂ σ₂ ε₂ α₂} (hpq : Part.Alike At Q R p q)
    (guard : String) (hanchor : At anchor anchor') {vs : List α₁} {vs' : List α₂}
    (hvs : List.Forall₂ R vs vs') (hst : At s t) :
    Matches At Q (List.Forall₂ R) (Plan.rounds anchor p guard vs s)
      (Plan.rounds anchor' q guard vs' t) := by
  fun_induction Plan.rounds anchor p guard vs s generalizing vs' t with
  | case1 vs s ih =>
      rw [Plan.rounds]
      refine attempt hanchor hpq hst (fun a b r u hab hru => ?_) hQ (.success hvs hst)
      have hshorter := h.shorter hru hst
      by_cases hr : Cursor.length r < Cursor.length s
      · rw [dif_pos hr, dif_pos (hshorter.1 hr)]
        exact ih a r hr (List.rel_append hvs (.cons hab .nil)) hru
      · rw [dif_neg hr, dif_neg (mt hshorter.2 hr)]
        exact .failure (hQ.expected hst guard) hanchor

theorem separatedRounds {sep : Part ι₁ σ₁ ε₁ β₁} {sep' : Part ι₂ σ₂ ε₂ β₂} {p : Part ι₁ σ₁ ε₁ α₁}
    {q : Part ι₂ σ₂ ε₂ α₂} (hsep : Part.Alike At Q S sep sep') (hpq : Part.Alike At Q R p q)
    (guard : String) (limit : Nat) (hanchor : At anchor anchor') {vs : List α₁} {vs' : List α₂}
    (hvs : List.Forall₂ R vs vs') (hst : At s t) :
    Matches At Q (List.Forall₂ R) (Plan.separatedRounds anchor sep p guard limit vs s)
      (Plan.separatedRounds anchor' sep' q guard limit vs' t) := by
  fun_induction Plan.separatedRounds anchor sep p guard limit vs s generalizing vs' t with
  | case1 limit vs s ihlt ihlimit =>
      rw [Plan.separatedRounds]
      refine attempt hanchor hsep hst (fun _ _ v w _ hvw => ?_) hQ (.success hvs hst)
      refine attempt hanchor hpq hvw (fun a b r u hab hru => ?_) hQ (.success hvs hst)
      have hall : List.Forall₂ R _ _ := List.rel_append hvs (.cons hab .nil)
      have hguard := h.shorter hru hvw
      have hshorter := h.shorter hru hst
      by_cases hv : Cursor.length r < Cursor.length v
      · rw [if_pos hv, if_pos (hguard.1 hv)]
        by_cases hr : Cursor.length r < Cursor.length s
        · rw [dif_pos hr, dif_pos (hshorter.1 hr)]
          exact ihlt a r hr hall hru
        · rw [dif_neg hr, dif_neg (mt hshorter.2 hr)]
          cases limit with
          | zero => exact .failure (hQ.expected hanchor guard) hanchor
          | succ limit => exact ihlimit v a r hall hru
      · rw [if_neg hv, if_neg (mt hguard.2 hv)]
        exact .failure (hQ.expected hvw guard) hanchor

theorem search {p : Part ι₁ σ₁ ε₁ α₁} {q : Part ι₂ σ₂ ε₂ α₂} (hpq : Part.Alike At Q R p q)
    (hanchor : At anchor anchor') (hst : At s t) :
    Matches At Q (Span.Alike At) (Plan.search anchor p s) (Plan.search anchor' q t) := by
  fun_induction Plan.search anchor p s generalizing t with
  | case1 s hs =>
      rw [Plan.search, dif_pos ((h.isEmpty_eq hst).symm.trans hs)]
      exact .failure (hQ.expected hanchor "TakeUntil") hanchor
  | case2 s hs ih =>
      have ht : ¬ Cursor.isEmpty t = true := by rwa [← h.isEmpty_eq hst]
      rw [Plan.search.eq_def anchor' q t, dif_neg ht]
      refine attempt hanchor hpq hst (fun _ _ _ _ _ _ => ?_) hQ (ih (h.tail hst))
      exact .success (h.span hanchor hst) hst

end Plan.Matches

/-! ## Trees -/

section Trees

variable [Cursor ι₁ σ₁] [Symbol σ₁] [Cursor ι₂ σ₂] [Symbol σ₂]

/-- The same tree, at two kinds of input, by how its errors and its values are related.  The functions
of a client respect the relations. -/
inductive Grammar.Alike (At : ι₁ → ι₂ → Prop) : {ε₁ ε₂ α₁ α₂ : Type} → (ε₁ → ε₂ → Prop) →
    (α₁ → α₂ → Prop) → Grammar ι₁ σ₁ ε₁ α₁ → Grammar ι₂ σ₂ ε₂ α₂ → Prop
  | weaken {ε₁ ε₂ α₁ α₂ : Type} {Q : ε₁ → ε₂ → Prop} {R R' : α₁ → α₂ → Prop} {p q}
      (h : ∀ a b, R a b → R' a b) (hpq : Alike At Q R p q) : Alike At Q R' p q
  | leaf {ε₁ ε₂ α₁ α₂ : Type} {Q : ε₁ → ε₂ → Prop} {R : α₁ → α₂ → Prop} {p q}
      (h : Parser.Alike At Q R p q) : Alike At Q R (.leaf p) (.leaf q)
  | primitive {α₁ α₂ : Type} {Q : ParseError ι₁ → ParseError ι₂ → Prop} {R : α₁ → α₂ → Prop} {p q}
      (hQ : ∀ e f, ParseError.Alike At e f → Q e f) (h : Primitive.Alike At R p q) :
      Alike At Q R (.primitive p) (.primitive q)
  | integerAs {α₁ α₂ : Type} {Q : ParseError ι₁ → ParseError ι₂ → Prop} {R : α₁ → α₂ → Prop}
      {read read'} (hQ : ∀ e f, ParseError.Alike At e f → Q e f)
      (h : ∀ cs, Answers Eq R (read cs) (read' cs)) :
      Alike At Q R (.integerAs read) (.integerAs read')
  | succeed {ε₁ ε₂ α₁ α₂ : Type} {Q : ε₁ → ε₂ → Prop} {R : α₁ → α₂ → Prop} {a b} (h : R a b) :
      Alike At Q R (.succeed a) (.succeed b)
  | fail {ε₁ ε₂ α₁ α₂ : Type} {Q : ε₁ → ε₂ → Prop} {R : α₁ → α₂ → Prop} (d : String) :
      Alike At Q R (.fail d) (.fail d)
  | endOfInput {ε₁ ε₂ : Type} {Q : ε₁ → ε₂ → Prop} : Alike At Q Eq .endOfInput .endOfInput
  | map {ε₁ ε₂ α₁ α₂ β₁ β₂ : Type} {Q : ε₁ → ε₂ → Prop} {R : α₁ → α₂ → Prop} {S : β₁ → β₂ → Prop}
      {f f' p q} (h : ∀ a b, R a b → S (f a) (f' b)) (hpq : Alike At Q R p q) :
      Alike At Q S (.map f p) (.map f' q)
  | tryMap {ε₁ ε₂ ρ₁ ρ₂ α₁ α₂ β₁ β₂ : Type} [Seed ρ₁ ε₁ ι₁] [Seed ρ₂ ε₂ ι₂] {Q : ε₁ → ε₂ → Prop}
      {R : α₁ → α₂ → Prop} {S : β₁ → β₂ → Prop} {f : α₁ → Except ρ₁ β₁} {f' : α₂ → Except ρ₂ β₂}
      {p q} (h : ∀ a b, R a b →
        Answers (fun x y => ∀ s t, At s t → Q (Seed.raise s x) (Seed.raise t y)) S (f a) (f' b))
      (hpq : Alike At Q R p q) : Alike At Q S (.tryMap f p) (.tryMap f' q)
  | mapError {ε₁ ε₂ ε₁' ε₂' α₁ α₂ : Type} [Diagnostic ε₁ ι₁] [Diagnostic ε₂ ι₂]
      {Q : ε₁ → ε₂ → Prop} {Q' : ε₁' → ε₂' → Prop} {R : α₁ → α₂ → Prop} {f f' p q}
      (hQ : Diagnostic.Alike At Q) (h : ∀ d e, Q d e → Q' (f d) (f' e)) (hpq : Alike At Q R p q) :
      Alike At Q' R (.mapError f p) (.mapError f' q)
  | label {ε₁ ε₂ α₁ α₂ : Type} {Q : ε₁ → ε₂ → Prop} {R : α₁ → α₂ → Prop} {p q} (d : String)
      (hpq : Alike At Q R p q) : Alike At Q R (.label d p) (.label d q)
  | verify {ε₁ ε₂ α₁ α₂ : Type} {Q : ε₁ → ε₂ → Prop} {R : α₁ → α₂ → Prop} {check check' p q}
      (h : ∀ a b, R a b → check a = check' b) (hpq : Alike At Q R p q) :
      Alike At Q R (.verify check p) (.verify check' q)
  | complete {ε₁ ε₂ α₁ α₂ : Type} {Q : ε₁ → ε₂ → Prop} {R : α₁ → α₂ → Prop} {p q}
      (hpq : Alike At Q R p q) : Alike At Q R (.complete p) (.complete q)
  | notFollowedBy {ε₁ ε₂ α₁ α₂ : Type} {Q : ε₁ → ε₂ → Prop} {R : α₁ → α₂ → Prop} {p q}
      (hpq : Alike At Q R p q) : Alike At Q Eq (.notFollowedBy p) (.notFollowedBy q)
  | optional {ε₁ ε₂ α₁ α₂ : Type} {Q : ε₁ → ε₂ → Prop} {R : α₁ → α₂ → Prop} {p q}
      (hpq : Alike At Q R p q) : Alike At Q (Option.Rel R) (.optional p) (.optional q)
  | withDefault {ε₁ ε₂ α₁ α₂ : Type} {Q : ε₁ → ε₂ → Prop} {R : α₁ → α₂ → Prop} {a b p q}
      (h : R a b) (hpq : Alike At Q R p q) : Alike At Q R (.withDefault a p) (.withDefault b q)
  | lookahead {ε₁ ε₂ α₁ α₂ : Type} {Q : ε₁ → ε₂ → Prop} {R : α₁ → α₂ → Prop} {p q}
      (hpq : Alike At Q R p q) : Alike At Q R (.lookahead p) (.lookahead q)
  | spanOf {ε₁ ε₂ α₁ α₂ : Type} {Q : ε₁ → ε₂ → Prop} {R : α₁ → α₂ → Prop} {p q}
      (hpq : Alike At Q R p q) : Alike At Q (Span.Alike At) (.spanOf p) (.spanOf q)
  | yielding {ε₁ ε₂ α₁ α₂ β₁ β₂ : Type} {Q : ε₁ → ε₂ → Prop} {R : α₁ → α₂ → Prop}
      {S : β₁ → β₂ → Prop} {b b' p q} (h : S b b') (hpq : Alike At Q R p q) :
      Alike At Q S (.yielding b p) (.yielding b' q)
  | takeUntil {ε₁ ε₂ α₁ α₂ : Type} {Q : ε₁ → ε₂ → Prop} {R : α₁ → α₂ → Prop} {p q}
      (hpq : Alike At Q R p q) : Alike At Q (Span.Alike At) (.takeUntil p) (.takeUntil q)
  | orElse {ε₁ ε₂ α₁ α₂ : Type} {Q : ε₁ → ε₂ → Prop} {R : α₁ → α₂ → Prop} {p p' q q'}
      (hpq : Alike At Q R p q) (hpq' : Alike At Q R p' q') :
      Alike At Q R (.orElse p p') (.orElse q q')
  | firstOf {ε₁ ε₂ α₁ α₂ : Type} {Q : ε₁ → ε₂ → Prop} {R : α₁ → α₂ → Prop} {n ps qs}
      (h : ∀ i : Fin n, Alike At Q R (ps i) (qs i)) : Alike At Q R (.firstOf n ps) (.firstOf n qs)
  | pair {ε₁ ε₂ α₁ α₂ β₁ β₂ : Type} {Q : ε₁ → ε₂ → Prop} {R : α₁ → α₂ → Prop} {S : β₁ → β₂ → Prop}
      {p p' q q'} (hpq : Alike At Q R p q) (hpq' : Alike At Q S p' q') :
      Alike At Q (Pair.Alike R S) (.pair p p') (.pair q q')
  | separatedPair {ε₁ ε₂ α₁ α₂ β₁ β₂ γ₁ γ₂ : Type} {Q : ε₁ → ε₂ → Prop} {R : α₁ → α₂ → Prop}
      {S : β₁ → β₂ → Prop} {T : γ₁ → γ₂ → Prop} {p p' q q' sep sep'} (hpq : Alike At Q R p q)
      (hsep : Alike At Q T sep sep') (hpq' : Alike At Q S p' q') :
      Alike At Q (Pair.Alike R S) (.separatedPair p sep p') (.separatedPair q sep' q')
  | seqRight {ε₁ ε₂ α₁ α₂ β₁ β₂ : Type} {Q : ε₁ → ε₂ → Prop} {R : α₁ → α₂ → Prop}
      {S : β₁ → β₂ → Prop} {p p' q q'} (hpq : Alike At Q R p q) (hpq' : Alike At Q S p' q') :
      Alike At Q S (.seqRight p p') (.seqRight q q')
  | seqLeft {ε₁ ε₂ α₁ α₂ β₁ β₂ : Type} {Q : ε₁ → ε₂ → Prop} {R : α₁ → α₂ → Prop}
      {S : β₁ → β₂ → Prop} {p p' q q'} (hpq : Alike At Q R p q) (hpq' : Alike At Q S p' q') :
      Alike At Q R (.seqLeft p p') (.seqLeft q q')
  | between {ε₁ ε₂ α₁ α₂ β₁ β₂ γ₁ γ₂ : Type} {Q : ε₁ → ε₂ → Prop} {R : α₁ → α₂ → Prop}
      {S : β₁ → β₂ → Prop} {T : γ₁ → γ₂ → Prop} {p p' q q' close close'} (hpq : Alike At Q R p q)
      (hpq' : Alike At Q S p' q') (hclose : Alike At Q T close close') :
      Alike At Q S (.between p p' close) (.between q q' close')
  | sequence {ε₁ ε₂ α₁ α₂ : Type} {Q : ε₁ → ε₂ → Prop} {R : α₁ → α₂ → Prop} {n ps qs}
      (h : ∀ i : Fin n, Alike At Q R (ps i) (qs i)) :
      Alike At Q (List.Forall₂ R) (.sequence n ps) (.sequence n qs)
  | times {ε₁ ε₂ α₁ α₂ : Type} {Q : ε₁ → ε₂ → Prop} {R : α₁ → α₂ → Prop} {p q} (n : Nat)
      (hpq : Alike At Q R p q) : Alike At Q (List.Forall₂ R) (.times p n) (.times q n)
  | many {ε₁ ε₂ α₁ α₂ : Type} {Q : ε₁ → ε₂ → Prop} {R : α₁ → α₂ → Prop} {p q}
      (hpq : Alike At Q R p q) : Alike At Q (List.Forall₂ R) (.many p) (.many q)
  | many1 {ε₁ ε₂ α₁ α₂ : Type} {Q : ε₁ → ε₂ → Prop} {R : α₁ → α₂ → Prop} {p q}
      (hpq : Alike At Q R p q) : Alike At Q (List.Forall₂ R) (.many1 p) (.many1 q)
  | sepBy {ε₁ ε₂ α₁ α₂ β₁ β₂ : Type} {Q : ε₁ → ε₂ → Prop} {R : α₁ → α₂ → Prop}
      {S : β₁ → β₂ → Prop} {sep sep' p q} (hsep : Alike At Q S sep sep') (hpq : Alike At Q R p q) :
      Alike At Q (List.Forall₂ R) (.sepBy sep p) (.sepBy sep' q)
  | sepBy1 {ε₁ ε₂ α₁ α₂ β₁ β₂ : Type} {Q : ε₁ → ε₂ → Prop} {R : α₁ → α₂ → Prop}
      {S : β₁ → β₂ → Prop} {sep sep' p q} (hsep : Alike At Q S sep sep') (hpq : Alike At Q R p q) :
      Alike At Q (List.Forall₂ R) (.sepBy1 sep p) (.sepBy1 sep' q)

theorem forall₂_ofFn {α β : Type 1} {R : α → β → Prop} {n : Nat} {f : Fin n → α} {g : Fin n → β}
    (h : ∀ i, R (f i) (g i)) : List.Forall₂ R (List.ofFn f) (List.ofFn g) := by
  refine List.forall₂_iff_get.2 ⟨by simp, fun i hf hg => ?_⟩
  simpa using h ⟨i, by simpa using hf⟩

theorem forall₂_replicate {α β : Type 1} {R : α → β → Prop} {a : α} {b : β} (h : R a b) (n : Nat) :
    List.Forall₂ R (List.replicate n a) (List.replicate n b) := by
  induction n with
  | zero => exact .nil
  | succ n ih => exact .cons h ih

variable {At : ι₁ → ι₂ → Prop} {Q : ε₁ → ε₂ → Prop} {R : α₁ → α₂ → Prop}

/-- Alike trees do the same at corresponding places. -/
theorem Grammar.Alike.part (h : Correspondence At) {g : Grammar ι₁ σ₁ ε₁ α₁}
    {g' : Grammar ι₂ σ₂ ε₂ α₂} (hg : Grammar.Alike At Q R g g') :
    ∀ [Diagnostic ε₁ ι₁] [Diagnostic ε₂ ι₂], Diagnostic.Alike At Q →
      Part.Alike At Q R ⟨g, g.plan⟩ ⟨g', g'.plan⟩ := by
  induction hg with
  | weaken hR _ ih =>
      intro _ _ hQ s t hst
      exact (ih hQ hst).mono (fun _ _ he => he) hR
  | leaf hpq =>
      intro _ _ hQ s t hst
      exact hpq hst
  | primitive hQ' hpq =>
      intro _ _ hQ s t hst
      exact (hpq.parse h hst).mono hQ' fun _ _ ha => ha
  | integerAs hQ' hread =>
      intro _ _ hQ s t hst
      exact (Parser.Alike.integerAs h hread hst).mono hQ' fun _ _ ha => ha
  | succeed hab =>
      intro _ _ hQ s t hst
      exact .success hab hst
  | fail d =>
      intro _ _ hQ s t hst
      exact .failure (hQ.expected hst d) hst
  | endOfInput =>
      intro _ _ hQ s t hst
      unfold plan Parser.endOfInput
      rw [h.isEmpty_eq hst]
      split
      · exact .success rfl hst
      · exact .failure (hQ.expectedEnd hst) hst
  | map hf _ ih =>
      intro _ _ hQ s t hst
      refine .call (ih hQ hst) (fun a b r u hab hru => ?_) fun e f o o' he ho => ?_
      · exact .success (hf a b hab) hru
      · exact .failure he ho
  | @tryMap _ _ _ _ _ _ _ _ _ _ _ _ _ f f' _ _ hf _ ih =>
      intro _ _ hQ s t hst
      refine .require hst (ih hQ) hst fun a b r u hab hru => ?_
      have hval := hf a b hab
      generalize f a = x at hval ⊢
      generalize f' b = y at hval ⊢
      cases hval with
      | ok hcd => exact .success hcd hru
      | error hxy => exact .failure (hxy s t hst) hst
  | mapError hQ' hf _ ih =>
      intro _ _ hQ s t hst
      exact .translate (ih hQ' hst) hf
  | label d _ ih =>
      intro _ _ hQ s t hst
      refine .call (ih hQ hst) (fun a b r u hab hru => .success hab hru) fun e f o o' he ho => ?_
      dsimp only
      rw [hQ.isFatal he]
      split
      · exact .failure he ho
      · exact .failure (hQ.relabel he d) ho
  | verify hcheck _ ih =>
      intro _ _ hQ s t hst
      refine .require hst (ih hQ) hst fun a b r u hab hru => ?_
      rw [hcheck a b hab]
      split
      · exact .success hab hru
      · exact .failure (hQ.expected hst "verify") hst
  | complete _ ih =>
      intro _ _ hQ s t hst
      refine .call (ih hQ hst) (fun a b r u hab hru => ?_) fun e f o o' he ho => .failure he ho
      dsimp only
      rw [h.isEmpty_eq hru]
      split
      · exact .success hab hru
      · exact .failure (hQ.expectedEnd hru) hst
  | notFollowedBy _ ih =>
      intro _ _ hQ s t hst
      refine .attempt hst (ih hQ) hst (fun a b r u _ _ => ?_) hQ (.success rfl hst)
      exact .failure (hQ.expected hst "not") hst
  | optional _ ih =>
      intro _ _ hQ s t hst
      refine .attempt hst (ih hQ) hst (fun a b r u hab hru => ?_) hQ (.success .none hst)
      exact .success (.some hab) hru
  | withDefault hab _ ih =>
      intro _ _ hQ s t hst
      exact .attempt hst (ih hQ) hst (fun _ _ _ _ => .success) hQ (.success hab hst)
  | lookahead _ ih =>
      intro _ _ hQ s t hst
      exact .require hst (ih hQ) hst fun a b r u hab _ => .success hab hst
  | spanOf _ ih =>
      intro _ _ hQ s t hst
      exact .require hst (ih hQ) hst fun a b r u _ hru => .success (h.span hst hru) hru
  | yielding hbb _ ih =>
      intro _ _ hQ s t hst
      exact .require hst (ih hQ) hst fun a b r u _ hru => .success hbb hru
  | takeUntil _ ih =>
      intro _ _ hQ s t hst
      exact .search hQ h (ih hQ) hst hst
  | orElse _ _ ihp ihq =>
      intro _ _ hQ s t hst
      refine .call (ihp hQ hst) (fun a b r u hab hru => .success hab hru) fun e f o o' he ho => ?_
      dsimp only
      rw [← hQ.isFatal he]
      split
      · exact .failure he ho
      · rename_i hfatal
        have hkept : Diagnostic.Made e := .kept (Bool.eq_false_iff.2 hfatal)
        refine .call (ihq hQ hst) (fun a b r u hab hru => .success hab hru)
          fun e' f' v v' he' hv => ?_
        dsimp only
        rw [← hQ.isFatal he']
        split
        · exact .failure he' hv
        · rename_i hfatal'
          exact .failure (hQ.merge he he' hkept (.kept (Bool.eq_false_iff.2 hfatal'))) hst
  | firstOf _ ih =>
      intro _ _ hQ s t hst
      exact .alternatives hQ (forall₂_ofFn fun i => ih i hQ) hst .none
  | pair _ _ ihp ihq =>
      intro _ _ hQ s t hst
      refine .require hst (ihp hQ) hst fun a b r u hab hru => ?_
      exact .require hst (ihq hQ) hru fun c d v w hcd hvw => .success ⟨hab, hcd⟩ hvw
  | separatedPair _ _ _ ihp ihsep ihq =>
      intro _ _ hQ s t hst
      refine .require hst (ihp hQ) hst fun a b r u hab hru => ?_
      refine .require hst (ihsep hQ) hru fun _ _ v w _ hvw => ?_
      exact .require hst (ihq hQ) hvw fun c d x y hcd hxy => .success ⟨hab, hcd⟩ hxy
  | seqRight _ _ ihp ihq =>
      intro _ _ hQ s t hst
      refine .require hst (ihp hQ) hst fun _ _ r u _ hru => ?_
      exact .require hst (ihq hQ) hru fun _ _ _ _ => .success
  | seqLeft _ _ ihp ihq =>
      intro _ _ hQ s t hst
      refine .require hst (ihp hQ) hst fun a b r u hab hru => ?_
      exact .require hst (ihq hQ) hru fun _ _ v w _ hvw => .success hab hvw
  | between _ _ _ ihp ihq ihclose =>
      intro _ _ hQ s t hst
      refine .require hst (ihp hQ) hst fun _ _ r u _ hru => ?_
      refine .require hst (ihq hQ) hru fun c d v w hcd hvw => ?_
      exact .require hst (ihclose hQ) hvw fun _ _ x y _ hxy => .success hcd hxy
  | sequence _ ih =>
      intro _ _ hQ s t hst
      exact .inTurn (forall₂_ofFn fun i => ih i hQ) hst .nil hst
  | times n _ ih =>
      intro _ _ hQ s t hst
      unfold plan
      rw [h.isEmpty_eq hst]
      split
      · exact .failure (hQ.expected hst "Count") hst
      · exact .inTurn (forall₂_replicate (ih hQ) n) hst .nil hst
  | many _ ih =>
      intro _ _ hQ s t hst
      exact .rounds hQ h (ih hQ) "Many0" hst .nil hst
  | many1 _ ih =>
      intro _ _ hQ s t hst
      refine .require hst (ih hQ) hst fun a b r u hab hru => ?_
      refine .guarded hQ h "Many1" hru hst ?_
      exact .rounds hQ h (ih hQ) "Many1" hst (.cons hab .nil) hru
  | sepBy _ _ ihsep ihp =>
      intro _ _ hQ s t hst
      refine .attempt hst (ihp hQ) hst (fun a b r u hab hru => ?_) hQ (.success .nil hst)
      refine .guarded hQ h "SeparatedList0" hru hst ?_
      exact .separatedRounds hQ h (ihsep hQ) (ihp hQ) "SeparatedList0" _ hst (.cons hab .nil) hru
  | sepBy1 _ _ ihsep ihp =>
      intro _ _ hQ s t hst
      refine .require hst (ihp hQ) hst fun a b r u hab hru => ?_
      refine .guarded hQ h "SeparatedList1" hru hst ?_
      exact .separatedRounds hQ h (ihsep hQ) (ihp hQ) "SeparatedList1" _ hst (.cons hab .nil) hru

/-- **Alike trees have alike outcomes at corresponding places.** -/
theorem Grammar.Alike.parse [Diagnostic ε₁ ι₁] [Diagnostic ε₂ ι₂] (h : Correspondence At)
    (hQ : Diagnostic.Alike At Q) {g : Grammar ι₁ σ₁ ε₁ α₁} {g' : Grammar ι₂ σ₂ ε₂ α₂}
    (hg : Grammar.Alike At Q R g g') : Parser.Alike At Q R g.parse g'.parse := by
  intro s t hst
  have hout := hg.part h hQ hst
  unfold Plan.Matches at hout
  rwa [Grammar.outcome_plan, Grammar.outcome_plan] at hout

end Trees

end ParserAlgebra
