import ParserAlgebra.Proofs.Parametric

/-!
# Trees that leave their errors open

Every combinator but one works with any type of errors.  A *scheme* is a tree of these combinators
in which no error type is mentioned: its leaves are named slots, and its refusals are values of `ρ`
that become errors when they are raised.  Filling the slots makes it a tree for one error type, so a
scheme is what two trees with different leaves, or with different errors, have in common.

* `Scheme.fill` — the tree of a scheme, given its parts.
* `Scheme.parse_fill` — of its parts, a tree sees only the parsers.
* `Scheme.fill_alike` — parts that are alike make trees that are alike, and so are their outcomes
  (`Scheme.parse_alike`).
-/

set_option autoImplicit false

namespace ParserAlgebra

/-- Trees over `ι` with open errors and open slots, by the types of their values. -/
inductive Scheme (ι : Type) (Slot : Type → Type 1) (ρ : Type) : Type → Type 1 where
  /-- A part that is filled in later. -/
  | slot {α : Type} (i : Slot α) : Scheme ι Slot ρ α
  | succeed {α : Type} (a : α) : Scheme ι Slot ρ α
  | fail {α : Type} (descriptor : String) : Scheme ι Slot ρ α
  | endOfInput : Scheme ι Slot ρ Unit
  | map {α β : Type} (f : α → β) (p : Scheme ι Slot ρ α) : Scheme ι Slot ρ β
  | tryMap {α β : Type} (f : α → Except ρ β) (p : Scheme ι Slot ρ α) : Scheme ι Slot ρ β
  | label {α : Type} (descriptor : String) (p : Scheme ι Slot ρ α) : Scheme ι Slot ρ α
  | verify {α : Type} (check : α → Bool) (p : Scheme ι Slot ρ α) : Scheme ι Slot ρ α
  | complete {α : Type} (p : Scheme ι Slot ρ α) : Scheme ι Slot ρ α
  | notFollowedBy {α : Type} (p : Scheme ι Slot ρ α) : Scheme ι Slot ρ Unit
  | optional {α : Type} (p : Scheme ι Slot ρ α) : Scheme ι Slot ρ (Option α)
  | withDefault {α : Type} (fallback : α) (p : Scheme ι Slot ρ α) : Scheme ι Slot ρ α
  | lookahead {α : Type} (p : Scheme ι Slot ρ α) : Scheme ι Slot ρ α
  | spanOf {α : Type} (p : Scheme ι Slot ρ α) : Scheme ι Slot ρ (Span ι)
  | yielding {α β : Type} (b : β) (p : Scheme ι Slot ρ α) : Scheme ι Slot ρ β
  | takeUntil {α : Type} (p : Scheme ι Slot ρ α) : Scheme ι Slot ρ (Span ι)
  | orElse {α : Type} (p q : Scheme ι Slot ρ α) : Scheme ι Slot ρ α
  | firstOf {α : Type} (n : Nat) (ps : Fin n → Scheme ι Slot ρ α) : Scheme ι Slot ρ α
  | pair {α β : Type} (p : Scheme ι Slot ρ α) (q : Scheme ι Slot ρ β) : Scheme ι Slot ρ (Pair α β)
  | separatedPair {α β γ : Type} (p : Scheme ι Slot ρ α) (sep : Scheme ι Slot ρ γ)
      (q : Scheme ι Slot ρ β) : Scheme ι Slot ρ (Pair α β)
  | seqRight {α β : Type} (p : Scheme ι Slot ρ α) (q : Scheme ι Slot ρ β) : Scheme ι Slot ρ β
  | seqLeft {α β : Type} (p : Scheme ι Slot ρ α) (q : Scheme ι Slot ρ β) : Scheme ι Slot ρ α
  | between {α β γ : Type} (p : Scheme ι Slot ρ α) (q : Scheme ι Slot ρ β)
      (close : Scheme ι Slot ρ γ) : Scheme ι Slot ρ β
  | sequence {α : Type} (n : Nat) (ps : Fin n → Scheme ι Slot ρ α) : Scheme ι Slot ρ (List α)
  | times {α : Type} (p : Scheme ι Slot ρ α) (n : Nat) : Scheme ι Slot ρ (List α)
  | many {α : Type} (p : Scheme ι Slot ρ α) : Scheme ι Slot ρ (List α)
  | many1 {α : Type} (p : Scheme ι Slot ρ α) : Scheme ι Slot ρ (List α)
  | sepBy {α β : Type} (sep : Scheme ι Slot ρ β) (p : Scheme ι Slot ρ α) : Scheme ι Slot ρ (List α)
  | sepBy1 {α β : Type} (sep : Scheme ι Slot ρ β) (p : Scheme ι Slot ρ α) :
      Scheme ι Slot ρ (List α)

/-! ## Places that correspond to themselves -/

/-- Every place goes on as it does. -/
theorem Correspondence.refl {ι σ : Type} [Cursor ι σ] [Symbol σ] :
    Correspondence (Eq : ι → ι → Prop) where
  next s t hst := by
    subst hst
    cases h : Cursor.next? s with
    | none => exact .inl ⟨rfl, rfl⟩
    | some p => exact .inr ⟨p.1, p.2, p.1, p.2, rfl, rfl, rfl, rfl⟩
  shorter hst hst' := by rw [hst, hst']

/-- Spans between the same places are the same. -/
theorem Span.Alike.eq {ι σ : Type} [Cursor ι σ] [Symbol σ] {u v : Span ι}
    (h : Span.Alike Eq u v) : u = v := by
  obtain ⟨start, stop⟩ := u
  obtain ⟨start', stop'⟩ := v
  obtain ⟨rfl, rfl, -⟩ := h
  rfl

theorem Pair.Alike.eq {α β : Type} {u v : Pair α β} (h : Pair.Alike Eq Eq u v) : u = v := by
  obtain ⟨a, b⟩ := u
  obtain ⟨c, d⟩ := v
  obtain ⟨rfl, rfl⟩ := h
  rfl

theorem Outcome.Alike.refl {ι ε α : Type} {Q : ε → ε → Prop} (hQ : ∀ e, Q e e)
    (x : Outcome ι ε α) : Outcome.Alike Eq Q Eq x x := by
  cases x with
  | success a r => exact .success rfl rfl
  | failure e o => exact .failure (hQ e) rfl

/-! ## Filling the slots -/

namespace Scheme

variable {ι σ ε ε' ρ α : Type} {Slot : Type → Type 1}

/-- The tree of a scheme whose slots are filled with `parts`. -/
def fill [Seed ρ ε ι] (parts : ∀ β : Type, Slot β → Grammar ι σ ε β) :
    {α : Type} → Scheme ι Slot ρ α → Grammar ι σ ε α
  | _, slot i => parts _ i
  | _, succeed a => .succeed a
  | _, fail d => .fail d
  | _, endOfInput => .endOfInput
  | _, map f p => .map f (p.fill parts)
  | _, tryMap f p => .tryMap f (p.fill parts)
  | _, label d p => .label d (p.fill parts)
  | _, verify check p => .verify check (p.fill parts)
  | _, complete p => .complete (p.fill parts)
  | _, notFollowedBy p => .notFollowedBy (p.fill parts)
  | _, optional p => .optional (p.fill parts)
  | _, withDefault a p => .withDefault a (p.fill parts)
  | _, lookahead p => .lookahead (p.fill parts)
  | _, spanOf p => .spanOf (p.fill parts)
  | _, yielding b p => .yielding b (p.fill parts)
  | _, takeUntil p => .takeUntil (p.fill parts)
  | _, orElse p q => .orElse (p.fill parts) (q.fill parts)
  | _, firstOf n ps => .firstOf n fun i => (ps i).fill parts
  | _, pair p q => .pair (p.fill parts) (q.fill parts)
  | _, separatedPair p sep q => .separatedPair (p.fill parts) (sep.fill parts) (q.fill parts)
  | _, seqRight p q => .seqRight (p.fill parts) (q.fill parts)
  | _, seqLeft p q => .seqLeft (p.fill parts) (q.fill parts)
  | _, between p q close => .between (p.fill parts) (q.fill parts) (close.fill parts)
  | _, sequence n ps => .sequence n fun i => (ps i).fill parts
  | _, times p n => .times (p.fill parts) n
  | _, many p => .many (p.fill parts)
  | _, many1 p => .many1 (p.fill parts)
  | _, sepBy sep p => .sepBy (sep.fill parts) (p.fill parts)
  | _, sepBy1 sep p => .sepBy1 (sep.fill parts) (p.fill parts)

/-! ## Parts -/

/-- If the parsers of a client in all parts satisfy `P`, so do those in the tree. -/
theorem leavesSatisfy_fill [Seed ρ ε ι] {P : ∀ {ε α : Type}, Parser ι ε α → Prop}
    {parts : ∀ β : Type, Slot β → Grammar ι σ ε β} (hparts : ∀ β i, (parts β i).LeavesSatisfy P)
    (T : Scheme ι Slot ρ α) : (T.fill parts).LeavesSatisfy P := by
  induction T with
  | slot i => exact hparts _ i
  | succeed | fail | endOfInput => exact trivial
  | map _ _ ih | tryMap _ _ ih | label _ _ ih | verify _ _ ih | complete _ ih | notFollowedBy _ ih
  | optional _ ih | withDefault _ _ ih | lookahead _ ih | spanOf _ ih | yielding _ _ ih
  | takeUntil _ ih | times _ _ ih | many _ ih | many1 _ ih => exact ⟨trivial, ih⟩
  | orElse _ _ ihp ihq | pair _ _ ihp ihq | seqRight _ _ ihp ihq | seqLeft _ _ ihp ihq
  | sepBy _ _ ihp ihq | sepBy1 _ _ ihp ihq => exact ⟨trivial, ihp, ihq⟩
  | separatedPair _ _ _ ihp ihsep ihq | between _ _ _ ihp ihsep ihq =>
      exact ⟨trivial, ihp, ihsep, ihq⟩
  | firstOf _ _ ih | sequence _ _ ih => exact ⟨trivial, ih⟩

/-- A tree knows nothing of its parts but their parsers. -/
theorem parse_fill [Cursor ι σ] [Symbol σ] [Diagnostic ε ι] [Seed ρ ε ι]
    (parts : ∀ β : Type, Slot β → Grammar ι σ ε β) (T : Scheme ι Slot ρ α) :
    (T.fill parts).parse = (T.fill fun β i => .leaf (parts β i).parse).parse := by
  induction T with
  | slot | succeed | fail | endOfInput => rfl
  | map _ _ ih | tryMap _ _ ih | label _ _ ih | verify _ _ ih | complete _ ih | notFollowedBy _ ih
  | optional _ ih | withDefault _ _ ih | lookahead _ ih | spanOf _ ih | yielding _ _ ih
  | takeUntil _ ih | times _ _ ih | many _ ih | many1 _ ih | firstOf _ _ ih | sequence _ _ ih =>
      simp only [fill, Grammar.parse, ih]
  | orElse _ _ ihp ihq | pair _ _ ihp ihq | seqRight _ _ ihp ihq | seqLeft _ _ ihp ihq
  | sepBy _ _ ihp ihq | sepBy1 _ _ ihp ihq => simp only [fill, Grammar.parse, ihp, ihq]
  | separatedPair _ _ _ ihp ihsep ihq | between _ _ _ ihp ihsep ihq =>
      simp only [fill, Grammar.parse, ihp, ihsep, ihq]

/-! ## Two trees of one scheme -/

variable [Cursor ι σ] [Symbol σ] [Seed ρ ε ι] [Seed ρ ε' ι] {Q : ε → ε' → Prop}
  {parts : ∀ β : Type, Slot β → Grammar ι σ ε β} {parts' : ∀ β : Type, Slot β → Grammar ι σ ε' β}

/-- Two trees of one scheme, at the same places and with the same values, are alike if their parts
and their refusals are. -/
theorem fill_alike (hparts : ∀ β i, Grammar.Alike Eq Q Eq (parts β i) (parts' β i))
    (hseed : ∀ (s : ι) (x : ρ), Q (Seed.raise s x) (Seed.raise s x)) (T : Scheme ι Slot ρ α) :
    Grammar.Alike Eq Q Eq (T.fill parts) (T.fill parts') := by
  have hlist : ∀ {γ : Type} (xs ys : List γ), List.Forall₂ Eq xs ys → xs = ys := by
    intro γ xs ys h
    rwa [List.forall₂_eq_eq_eq] at h
  induction T with
  | slot i => exact hparts _ i
  | succeed a => exact .succeed rfl
  | fail d => exact .fail d
  | endOfInput => exact .endOfInput
  | map f p ih => exact .map (fun _ _ hab => congrArg f hab) ih
  | tryMap f p ih =>
      refine .tryMap (fun a b hab => ?_) ih
      subst hab
      cases f a with
      | ok c => exact .ok rfl
      | error x =>
          refine .error fun s t hst => ?_
          subst hst
          exact hseed s x
  | label d p ih => exact .label d ih
  | verify check p ih => exact .verify (fun _ _ hab => congrArg check hab) ih
  | complete p ih => exact .complete ih
  | notFollowedBy p ih => exact .notFollowedBy ih
  | optional p ih =>
      refine .weaken (fun a b hab => ?_) (.optional ih)
      cases hab with
      | none => rfl
      | some h => rw [h]
  | withDefault a p ih => exact .withDefault rfl ih
  | lookahead p ih => exact .lookahead ih
  | spanOf p ih => exact .weaken (fun _ _ h => h.eq) (.spanOf ih)
  | yielding b p ih => exact .yielding rfl ih
  | takeUntil p ih => exact .weaken (fun _ _ h => h.eq) (.takeUntil ih)
  | orElse p q ihp ihq => exact .orElse ihp ihq
  | firstOf n ps ih => exact .firstOf ih
  | pair p q ihp ihq => exact .weaken (fun _ _ h => h.eq) (.pair ihp ihq)
  | separatedPair p sep q ihp ihsep ihq =>
      exact .weaken (fun _ _ h => h.eq) (.separatedPair ihp ihsep ihq)
  | seqRight p q ihp ihq => exact .seqRight ihp ihq
  | seqLeft p q ihp ihq => exact .seqLeft ihp ihq
  | between p q close ihp ihq ihclose => exact .between ihp ihq ihclose
  | sequence n ps ih => exact .weaken hlist (.sequence ih)
  | times p n ih => exact .weaken hlist (.times n ih)
  | many p ih => exact .weaken hlist (.many ih)
  | many1 p ih => exact .weaken hlist (.many1 ih)
  | sepBy sep p ihsep ihp => exact .weaken hlist (.sepBy ihsep ihp)
  | sepBy1 sep p ihsep ihp => exact .weaken hlist (.sepBy1 ihsep ihp)

/-- Two trees of one scheme have alike outcomes if their parts have. -/
theorem parse_alike [Diagnostic ε ι] [Diagnostic ε' ι] (hQ : Diagnostic.Alike Eq Q)
    (hparts : ∀ β i s, Outcome.Alike Eq Q Eq ((parts β i).parse s) ((parts' β i).parse s))
    (hseed : ∀ (s : ι) (x : ρ), Q (Seed.raise s x) (Seed.raise s x)) (T : Scheme ι Slot ρ α)
    (s : ι) : Outcome.Alike Eq Q Eq ((T.fill parts).parse s) ((T.fill parts').parse s) := by
  rw [parse_fill parts, parse_fill parts']
  refine (fill_alike (fun β i => .leaf fun s t hst => ?_) hseed T).parse .refl hQ rfl
  subst hst
  exact hparts β i s

end Scheme

end ParserAlgebra
