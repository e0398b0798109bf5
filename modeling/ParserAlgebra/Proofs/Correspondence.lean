import ParserAlgebra.Proofs.Severity

/-!
# Corresponding inputs

Two inputs of different kinds can hold the same symbols.  A relation between their places is a
*correspondence* if related places go on with the same symbols, and if lengths are compared the same
way on both sides.  A parser cannot tell the two sides of a correspondence apart.

* `Correspondence` — the relations between places that parsers respect.
* `Span.Alike`, `ParseError.Alike`, `Outcome.Alike` — what they give on the two sides.
* `Diagnostic.Alike` — the relations between errors that combinators respect.
* `Plan.Matches` — plans whose outcomes are alike, with one lemma for each way to go on.
-/

set_option autoImplicit false

namespace ParserAlgebra

variable {ι₁ σ₁ ι₂ σ₂ ε₁ ε₂ α₁ α₂ β₁ β₂ : Type}

/-- Two symbols of any kinds that stand for the same character. -/
def Symbol.Alike [Symbol σ₁] [Symbol σ₂] (x : σ₁) (y : σ₂) : Prop :=
  Symbol.toChar x = Symbol.toChar y

/-! ## Places -/

section Places

variable [Cursor ι₁ σ₁] [Symbol σ₁] [Cursor ι₂ σ₂] [Symbol σ₂]

/-- Related places have the same next symbol, and related places behind it. -/
def InStep (At : ι₁ → ι₂ → Prop) : Prop :=
  ∀ ⦃s : ι₁⦄ ⦃t : ι₂⦄, At s t → (Cursor.next? s = none ∧ Cursor.next? t = none) ∨
    ∃ x s' y t', Cursor.next? s = some (x, s') ∧ Cursor.next? t = some (y, t') ∧
      Symbol.Alike x y ∧ At s' t'

theorem InStep.chars_eq {At : ι₁ → ι₂ → Prop} (h : InStep At) {s : ι₁} {t : ι₂} (hst : At s t) :
    (Cursor.toList s).map Symbol.toChar = (Cursor.toList t).map Symbol.toChar := by
  fun_induction Cursor.toList s generalizing t with
  | case1 s hs =>
      rcases h hst with ⟨_, ht⟩ | ⟨_, _, _, _, hs', _⟩
      · rw [Cursor.toList_of_none ht]
        rfl
      · rw [hs] at hs'
        cases hs'
  | case2 s x s' hs ih =>
      rcases h hst with ⟨hs', _⟩ | ⟨y, u, z, t', hs', ht, hxy, hat⟩
      · rw [hs] at hs'
        cases hs'
      · rw [hs] at hs'
        cases hs'
        rw [Cursor.toList_of_some ht, List.map_cons, List.map_cons, ih hat, hxy]

theorem InStep.text_eq {At : ι₁ → ι₂ → Prop} (h : InStep At) {s : ι₁} {t : ι₂} (hst : At s t) :
    Cursor.text s = Cursor.text t := by
  unfold Cursor.text Symbol.textOf
  rw [h.chars_eq hst]

/-- Related places go on with the same symbols, and of two places the same one is further on. -/
structure Correspondence (At : ι₁ → ι₂ → Prop) : Prop where
  next : InStep At
  shorter {s s' : ι₁} {t t' : ι₂} (hst : At s t) (hst' : At s' t') :
    Cursor.length s < Cursor.length s' ↔ Cursor.length t < Cursor.length t'

namespace Correspondence

variable {At : ι₁ → ι₂ → Prop} (h : Correspondence At) {s s' : ι₁} {t t' : ι₂}

include h

theorem isEmpty_eq (hst : At s t) : Cursor.isEmpty s = Cursor.isEmpty t := by
  rw [Bool.eq_iff_iff, Cursor.isEmpty_iff, Cursor.isEmpty_iff, ← Cursor.next?_eq_none_iff,
    ← Cursor.next?_eq_none_iff]
  rcases h.next hst with ⟨hs, ht⟩ | ⟨x, s', y, t', hs, ht, _⟩
  · simp [hs, ht]
  · simp [hs, ht]

theorem sameLength (hst : At s t) (hst' : At s' t') :
    Cursor.length s = Cursor.length s' ↔ Cursor.length t = Cursor.length t' := by
  have hlt := h.shorter hst hst'
  have hgt := h.shorter hst' hst
  omega

theorem tail (hst : At s t) : At (Cursor.tail s) (Cursor.tail t) := by
  unfold Cursor.tail
  rcases h.next hst with ⟨hs, ht⟩ | ⟨x, s', y, t', hs, ht, _, hat⟩
  · rw [hs, ht]
    exact hst
  · rw [hs, ht]
    exact hat

theorem advance (n : Nat) (hst : At s t) :
    (Cursor.advance n s).1 = (Cursor.advance n t).1 ∧
      At (Cursor.advance n s).2 (Cursor.advance n t).2 := by
  rw [Cursor.advance_eq, Cursor.advance_eq]
  induction n generalizing s t with
  | zero => exact ⟨rfl, hst⟩
  | succ n ih =>
      unfold advanceByNext
      rcases h.next hst with ⟨hs, ht⟩ | ⟨x, s', y, t', hs, ht, _, hat⟩
      · rw [hs, ht]
        exact ⟨rfl, hst⟩
      · rw [hs, ht]
        obtain ⟨hk, hr⟩ := ih hat
        exact ⟨congrArg (· + 1) hk, hr⟩

end Correspondence

end Places

/-! ## Spans -/

/-- Spans between related places, with the same text. -/
structure Span.Alike [Cursor ι₁ σ₁] [Symbol σ₁] [Cursor ι₂ σ₂] [Symbol σ₂] (At : ι₁ → ι₂ → Prop)
    (u : Span ι₁) (v : Span ι₂) : Prop where
  start : At u.start v.start
  stop : At u.stop v.stop
  text : u.text = v.text

section Spans

variable [Cursor ι₁ σ₁] [Symbol σ₁] [Cursor ι₂ σ₂] [Symbol σ₂] {At : ι₁ → ι₂ → Prop}

/-- Spans between related places are in step. -/
theorem Correspondence.inStep_span (h : Correspondence At) :
    InStep fun (u : Span ι₁) (v : Span ι₂) => At u.start v.start ∧ At u.stop v.stop := by
  intro u v ⟨hstart, hstop⟩
  show (u.next? = none ∧ v.next? = none) ∨ ∃ x u' y v', u.next? = some (x, u') ∧
    v.next? = some (y, v') ∧ Symbol.Alike x y ∧ At u'.start v'.start ∧ At u'.stop v'.stop
  unfold Span.next?
  have hlt := h.shorter hstop hstart
  by_cases hle : Cursor.length u.start ≤ Cursor.length u.stop
  · have hle' : Cursor.length v.start ≤ Cursor.length v.stop := by omega
    rw [if_pos hle, if_pos hle']
    exact .inl ⟨rfl, rfl⟩
  · have hle' : ¬ Cursor.length v.start ≤ Cursor.length v.stop := by omega
    rw [if_neg hle, if_neg hle']
    rcases h.next hstart with ⟨hu, hv⟩ | ⟨x, s', y, t', hu, hv, hxy, hat⟩
    · rw [hu, hv]
      exact .inl ⟨rfl, rfl⟩
    · rw [hu, hv]
      exact .inr ⟨x, ⟨s', u.stop⟩, y, ⟨t', v.stop⟩, rfl, rfl, hxy, hat, hstop⟩

theorem Correspondence.span (h : Correspondence At) {s s' : ι₁} {t t' : ι₂} (hst : At s t)
    (hst' : At s' t') : Span.Alike At ⟨s, s'⟩ ⟨t, t'⟩ where
  start := hst
  stop := hst'
  text := h.inStep_span.text_eq ⟨hst, hst'⟩

theorem Span.Alike.chars_eq (h : Correspondence At) {u : Span ι₁} {v : Span ι₂}
    (huv : Span.Alike At u v) : u.toList.map Symbol.toChar = v.toList.map Symbol.toChar :=
  h.inStep_span.chars_eq ⟨huv.start, huv.stop⟩

end Spans

/-! ## Errors -/

/-- Errors that point at related places, with the same descriptors and the same cause. -/
structure ParseError.Alike (At : ι₁ → ι₂ → Prop) (e : ParseError ι₁) (f : ParseError ι₂) : Prop where
  position : At e.position f.position
  expected : e.expected = f.expected
  cause : e.cause = f.cause

/-- A relation between errors that combinators respect at related places. -/
structure Diagnostic.Alike [Diagnostic ε₁ ι₁] [Diagnostic ε₂ ι₂] (At : ι₁ → ι₂ → Prop)
    (Q : ε₁ → ε₂ → Prop) : Prop where
  isFatal {e : ε₁} {f : ε₂} (h : Q e f) : isFatal e = isFatal f
  expected {s : ι₁} {t : ι₂} (h : At s t) (d : String) : Q (expected s d) (expected t d)
  expectedEnd {s : ι₁} {t : ι₂} (h : At s t) : Q (expectedEnd s) (expectedEnd t)
  relabel {e : ε₁} {f : ε₂} (h : Q e f) (d : String) : Q (relabel d e) (relabel d f)
  merge {e e' : ε₁} {f f' : ε₂} (h : Q e f) (h' : Q e' f') (he : Made e) (he' : Made e') :
    Q (merge e e') (merge f f')

section Errors

variable [Cursor ι₁ σ₁] [Symbol σ₁] [Cursor ι₂ σ₂] [Symbol σ₂] {At : ι₁ → ι₂ → Prop}

theorem ParseError.Alike.merge (h : Correspondence At) {e e' : ParseError ι₁} {f f' : ParseError ι₂}
    (hef : Alike At e f) (hef' : Alike At e' f') : Alike At (e.merge e') (f.merge f') := by
  have hlt := h.shorter hef'.position hef.position
  have heq := h.sameLength hef'.position hef.position
  unfold ParseError.merge
  by_cases hl : Cursor.length e'.position < Cursor.length e.position
  · rw [if_pos hl, if_pos (hlt.1 hl)]
    exact hef'
  · rw [if_neg hl, if_neg (mt hlt.2 hl)]
    by_cases hs : Cursor.length e'.position = Cursor.length e.position
    · rw [if_pos hs, if_pos (heq.1 hs)]
      refine ⟨hef.position, ?_, ?_⟩
      · show e.expected ++ e'.expected = f.expected ++ f'.expected
        rw [hef.expected, hef'.expected]
      · show (e.cause.orElse fun _ => e'.cause) = f.cause.orElse fun _ => f'.cause
        rw [hef.cause, hef'.cause]
    · rw [if_neg hs, if_neg (mt heq.2 hs)]
      exact hef

/-- Combinators respect the relation between the library's own errors. -/
theorem ParseError.diagnostic_alike (h : Correspondence At) :
    Diagnostic.Alike At (ParseError.Alike At) where
  isFatal hef := congrArg Option.isSome hef.cause
  expected hst _ := ⟨hst, rfl, rfl⟩
  expectedEnd hst := ⟨hst, rfl, rfl⟩
  relabel hef _ := ⟨hef.position, rfl, rfl⟩
  merge hef hef' _ _ := ParseError.Alike.merge h hef hef'

end Errors

/-! ## Outcomes -/

/-- Both succeed with related values at related places, or both fail with related errors. -/
inductive Outcome.Alike (At : ι₁ → ι₂ → Prop) (Q : ε₁ → ε₂ → Prop) (R : α₁ → α₂ → Prop) :
    Outcome ι₁ ε₁ α₁ → Outcome ι₂ ε₂ α₂ → Prop
  | success {a : α₁} {b : α₂} {r : ι₁} {t : ι₂} (ha : R a b) (hr : At r t) :
      Alike At Q R (.success a r) (.success b t)
  | failure {e : ε₁} {f : ε₂} {o : ι₁} {u : ι₂} (he : Q e f) (ho : At o u) :
      Alike At Q R (.failure e o) (.failure f u)

theorem Outcome.Alike.mono {At : ι₁ → ι₂ → Prop} {Q Q' : ε₁ → ε₂ → Prop} {R R' : α₁ → α₂ → Prop}
    {x : Outcome ι₁ ε₁ α₁} {y : Outcome ι₂ ε₂ α₂} (h : Outcome.Alike At Q R x y)
    (hQ : ∀ e f, Q e f → Q' e f) (hR : ∀ a b, R a b → R' a b) : Outcome.Alike At Q' R' x y := by
  cases h with
  | success ha hr => exact .success (hR _ _ ha) hr
  | failure he ho => exact .failure (hQ _ _ he) ho

/-- Parsers whose outcomes at related places are alike. -/
def Parser.Alike (At : ι₁ → ι₂ → Prop) (Q : ε₁ → ε₂ → Prop) (R : α₁ → α₂ → Prop)
    (p : Parser ι₁ ε₁ α₁) (q : Parser ι₂ ε₂ α₂) : Prop :=
  ∀ ⦃s : ι₁⦄ ⦃t : ι₂⦄, At s t → Outcome.Alike At Q R (p s) (q t)

end ParserAlgebra
