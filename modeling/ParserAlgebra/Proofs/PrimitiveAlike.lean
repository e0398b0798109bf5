import ParserAlgebra.Proofs.Correspondence

/-!
# Primitives at two kinds of input

A primitive parser looks at symbols only as characters, so its two instances are alike at the two
sides of a correspondence (`Primitive.Alike.parse`): they match the same symbols, and if they fail
they expect the same.

Lengths are in storage units, which need not agree.  No primitive looks at one: those that count,
count symbols.
-/

set_option autoImplicit false

namespace ParserAlgebra

variable {ι₁ σ₁ ι₂ σ₂ ε₁ ε₂ α₁ α₂ β₁ β₂ : Type} {At : ι₁ → ι₂ → Prop} {Q : ε₁ → ε₂ → Prop}

/-- Pairs whose sides are related. -/
def Pair.Alike (R : α₁ → α₂ → Prop) (S : β₁ → β₂ → Prop) (u : Pair α₁ β₁) (v : Pair α₂ β₂) : Prop :=
  R u.left v.left ∧ S u.right v.right

/-- Both refuse for related reasons, or both answer with related values. -/
inductive Answers {ρ₁ ρ₂ : Type} (P : ρ₁ → ρ₂ → Prop) (R : α₁ → α₂ → Prop) :
    Except ρ₁ α₁ → Except ρ₂ α₂ → Prop
  | ok {a : α₁} {b : α₂} (h : R a b) : Answers P R (.ok a) (.ok b)
  | error {x : ρ₁} {y : ρ₂} (h : P x y) : Answers P R (.error x) (.error y)

theorem Answers.refl {ρ₁ : Type} (x : Except ρ₁ α₁) : Answers Eq Eq x x := by
  cases x with
  | ok a => exact .ok rfl
  | error e => exact .error rfl

/-! ## Primitives -/

namespace Parser.Alike

section Nodes

variable {R : α₁ → α₂ → Prop} {S : β₁ → β₂ → Prop} {p p' : Parser ι₁ ε₁ α₁} {q q' : Parser ι₂ ε₂ α₂}

theorem label [Diagnostic ε₁ ι₁] [Diagnostic ε₂ ι₂] (hQ : Diagnostic.Alike At Q)
    (hpq : Parser.Alike At Q R p q) (d : String) :
    Parser.Alike At Q R (p.label d) (q.label d) := by
  intro s t hst
  have hout := hpq hst
  unfold Parser.label
  generalize p s = x at hout ⊢
  generalize q t = y at hout ⊢
  cases hout with
  | success ha hr => exact .success ha hr
  | failure he ho =>
      dsimp only
      rw [hQ.isFatal he]
      split
      · exact .failure he ho
      · exact .failure (hQ.relabel he d) ho

theorem spanOf [Cursor ι₁ σ₁] [Symbol σ₁] [Cursor ι₂ σ₂] [Symbol σ₂]
    (h : Correspondence At) (hpq : Parser.Alike At Q R p q) :
    Parser.Alike At Q (Span.Alike At) p.spanOf q.spanOf := by
  intro s t hst
  have hout := hpq hst
  unfold Parser.spanOf
  generalize p s = x at hout ⊢
  generalize q t = y at hout ⊢
  cases hout with
  | success _ hr => exact .success (h.span hst hr) hr
  | failure he _ => exact .failure he hst

theorem pair {p' : Parser ι₁ ε₁ β₁} {q' : Parser ι₂ ε₂ β₂} (hpq : Parser.Alike At Q R p q)
    (hpq' : Parser.Alike At Q S p' q') :
    Parser.Alike At Q (Pair.Alike R S) (p.pair p') (q.pair q') := by
  intro s t hst
  have hout := hpq hst
  unfold Parser.pair
  generalize p s = x at hout ⊢
  generalize q t = y at hout ⊢
  cases hout with
  | failure he _ => exact .failure he hst
  | @success a b r u ha hr =>
      have hout' := hpq' hr
      dsimp only
      generalize p' r = x' at hout' ⊢
      generalize q' u = y' at hout' ⊢
      cases hout' with
      | success hb ht => exact .success ⟨ha, hb⟩ ht
      | failure he _ => exact .failure he hst

theorem orElse [Diagnostic ε₁ ι₁] [Diagnostic ε₂ ι₂] (hQ : Diagnostic.Alike At Q)
    (hpq : Parser.Alike At Q R p q) (hpq' : Parser.Alike At Q R p' q') :
    Parser.Alike At Q R (p.orElse p') (q.orElse q') := by
  intro s t hst
  have hout := hpq hst
  have hout' := hpq' hst
  unfold Parser.orElse
  generalize p s = x at hout ⊢
  generalize q t = y at hout ⊢
  generalize p' s = x' at hout' ⊢
  generalize q' t = y' at hout' ⊢
  cases hout with
  | success ha hr => exact .success ha hr
  | @failure e f o u he ho =>
      cases hfe : Diagnostic.isFatal e with
      | true =>
          have hff : Diagnostic.isFatal f = true := (hQ.isFatal he).symm.trans hfe
          simp only [hfe, hff, if_true]
          exact .failure he ho
      | false =>
          have hff : Diagnostic.isFatal f = false := (hQ.isFatal he).symm.trans hfe
          simp only [hfe, hff, Bool.false_eq_true, if_false]
          cases hout' with
          | success ha hr => exact .success ha hr
          | @failure e' f' o' u' he' ho' =>
              dsimp only
              rw [← hQ.isFatal he']
              split
              · exact .failure he' ho'
              · rename_i hfe'
                have hfe' : Diagnostic.isFatal e' = false := Bool.eq_false_iff.2 hfe'
                exact .failure (hQ.merge he he' (.kept hfe) (.kept hfe')) hst

end Nodes

variable [Cursor ι₁ σ₁] [Symbol σ₁] [Cursor ι₂ σ₂] [Symbol σ₂] (h : Correspondence At)

include h

theorem symbolWhere (d : String) {accepts : σ₁ → Bool} {accepts' : σ₂ → Bool}
    (hacc : ∀ x y, Symbol.Alike x y → accepts x = accepts' y) :
    Parser.Alike At (ParseError.Alike At) Symbol.Alike (Parser.symbolWhere (ι := ι₁) d accepts)
      (Parser.symbolWhere (ι := ι₂) d accepts') := by
  intro s t hst
  have hfail : ParseError.Alike At (Diagnostic.expected s d) (Diagnostic.expected t d) :=
    ⟨hst, rfl, rfl⟩
  unfold Parser.symbolWhere
  rcases h.next hst with ⟨hs, ht⟩ | ⟨x, s', y, t', hs, ht, hxy, hat⟩
  · rw [hs, ht]
    exact .failure hfail hst
  · rw [hs, ht]
    dsimp only
    rw [hacc x y hxy]
    split
    · exact .success hxy hat
    · exact .failure hfail hst

theorem named (d : String) (c : Char) :
    Parser.Alike At (ParseError.Alike At) Symbol.Alike (Parser.named (ι := ι₁) (σ := σ₁) d c)
      (Parser.named (ι := ι₂) (σ := σ₂) d c) := by
  refine label (ParseError.diagnostic_alike h) (symbolWhere h "Satisfy" fun x y hxy => ?_) d
  show (Symbol.toChar x == c) = (Symbol.toChar y == c)
  rw [show Symbol.toChar x = Symbol.toChar y from hxy]

theorem anySymbol :
    Parser.Alike At (ParseError.Alike At) Symbol.Alike (Parser.anySymbol (ι := ι₁))
      (Parser.anySymbol (ι := ι₂)) := by
  intro s t hst
  unfold Parser.anySymbol
  rcases h.next hst with ⟨hs, ht⟩ | ⟨x, s', y, t', hs, ht, hxy, hat⟩
  · rw [hs, ht]
    exact .failure ⟨hst, rfl, rfl⟩ hst
  · rw [hs, ht]
    exact .success hxy hat

theorem take (n : Nat) :
    Parser.Alike At (ParseError.Alike At) (Span.Alike At) (Parser.take (ι := ι₁) n)
      (Parser.take (ι := ι₂) n) := by
  intro s t hst
  obtain ⟨hk, hr⟩ := h.advance n hst
  unfold Parser.take
  dsimp only
  rw [hk]
  split
  · exact .success (h.span hst hr) hr
  · exact .failure ⟨hr, rfl, rfl⟩ hst

theorem takeRun_alike {accepts : σ₁ → Bool} {accepts' : σ₂ → Bool}
    (hacc : ∀ x y, Symbol.Alike x y → accepts x = accepts' y) (limit : Nat) {s : ι₁} {t : ι₂}
    (hst : At s t) :
    (takeRun accepts limit s).1 = (takeRun accepts' limit t).1 ∧
      At (takeRun accepts limit s).2 (takeRun accepts' limit t).2 := by
  induction limit generalizing s t with
  | zero => exact ⟨rfl, hst⟩
  | succ limit ih =>
      unfold takeRun
      rcases h.next hst with ⟨hs, ht⟩ | ⟨x, s', y, t', hs, ht, hxy, hat⟩
      · rw [hs, ht]
        exact ⟨rfl, hst⟩
      · rw [hs, ht]
        dsimp only
        rw [hacc x y hxy]
        split
        · obtain ⟨hk, hr⟩ := ih hat
          exact ⟨congrArg (· + 1) hk, hr⟩
        · exact ⟨rfl, hst⟩

theorem takeWhileBetween (least most : Nat) {accepts : σ₁ → Bool} {accepts' : σ₂ → Bool}
    (hacc : ∀ x y, Symbol.Alike x y → accepts x = accepts' y) :
    Parser.Alike At (ParseError.Alike At) (Span.Alike At)
      (Parser.takeWhileBetween (ι := ι₁) least most accepts)
      (Parser.takeWhileBetween (ι := ι₂) least most accepts') := by
  intro s t hst
  obtain ⟨hk, hr⟩ := takeRun_alike h hacc most hst
  unfold Parser.takeWhileBetween
  dsimp only
  rw [hk]
  split
  · exact .failure ⟨hst, rfl, rfl⟩ hst
  · exact .success (h.span hst hr) hr

theorem behind?_alike {τ : Type} [Symbol τ] (ys : List τ) {s : ι₁} {t : ι₂} (hst : At s t) :
    (behind? ys s = none ∧ behind? ys t = none) ∨
      ∃ r u, behind? ys s = some r ∧ behind? ys t = some u ∧ At r u := by
  induction ys generalizing s t with
  | nil => exact .inr ⟨s, t, rfl, rfl, hst⟩
  | cons y ys ih =>
      unfold behind?
      rcases h.next hst with ⟨hs, ht⟩ | ⟨x, s', z, t', hs, ht, hxz, hat⟩
      · rw [hs, ht]
        exact .inl ⟨rfl, rfl⟩
      · rw [hs, ht]
        have hsame : Symbol.same x y = Symbol.same z y := congrArg (· == Symbol.toChar y) hxz
        dsimp only
        rw [hsame]
        split
        · exact ih hat
        · exact .inl ⟨rfl, rfl⟩

theorem token {κ τ : Type} [Cursor κ τ] [Symbol τ] (pattern : κ) :
    Parser.Alike At (ParseError.Alike At) (Span.Alike At) (Parser.token (ι := ι₁) pattern)
      (Parser.token (ι := ι₂) pattern) := by
  intro s t hst
  unfold Parser.token
  rcases behind?_alike h (Cursor.toList pattern) hst with ⟨hs, ht⟩ | ⟨r, u, hs, ht, hru⟩
  · rw [hs, ht]
    exact .failure ⟨hst, rfl, rfl⟩ hst
  · rw [hs, ht]
    exact .success (h.span hst hru) hru

theorem ofClass (k : CharClass) :
    Parser.Alike At (ParseError.Alike At) (Span.Alike At) (Parser.ofClass (ι := ι₁) k)
      (Parser.ofClass (ι := ι₂) k) :=
  takeWhileBetween h 0 maxCount fun _ _ => CharClass.contains_congr

theorem ofClass1 (k : CharClass) :
    Parser.Alike At (ParseError.Alike At) (Span.Alike At) (Parser.ofClass1 (ι := ι₁) k)
      (Parser.ofClass1 (ι := ι₂) k) :=
  label (ParseError.diagnostic_alike h)
    (takeWhileBetween h 1 maxCount fun _ _ => CharClass.contains_congr) k.descriptor

theorem crlf :
    Parser.Alike At (ParseError.Alike At) (Span.Alike At) (Parser.crlf (ι := ι₁))
      (Parser.crlf (ι := ι₂)) :=
  label (ParseError.diagnostic_alike h) (spanOf h (pair (named h "CR" '\r') (named h "LF" '\n')))
    "CRLF"

theorem newline :
    Parser.Alike At (ParseError.Alike At) (Span.Alike At) (Parser.newline (ι := ι₁))
      (Parser.newline (ι := ι₂)) := by
  have hQ := ParseError.diagnostic_alike h
  exact label hQ (orElse hQ (spanOf h (named h "LF" '\n')) (crlf h)) "newline"

/-! ## Literals -/

theorem startsWith_eq (c : Char) {s : ι₁} {t : ι₂} (hst : At s t) :
    startsWith c s = startsWith c t := by
  unfold startsWith Cursor.peek?
  rcases h.next hst with ⟨hs, ht⟩ | ⟨x, s', y, t', hs, ht, hxy, _⟩
  · rw [hs, ht]
    rfl
  · rw [hs, ht]
    exact congrArg (· == c) hxy

theorem behindFraction_alike {s : ι₁} {t : ι₂} (hst : At s t) :
    At (behindFraction s) (behindFraction t) := by
  unfold behindFraction
  rw [startsWith_eq h '.' hst]
  split
  · have hout := ofClass1 h .digit (h.tail hst)
    generalize Parser.ofClass1 .digit (Cursor.tail s) = x at hout ⊢
    generalize Parser.ofClass1 .digit (Cursor.tail t) = y at hout ⊢
    cases hout with
    | success _ hr => exact hr
    | failure _ _ => exact hst
  · exact hst

theorem literal (d : String) (fraction : Bool) :
    Parser.Alike At (ParseError.Alike At) (Span.Alike At) (Parser.literal (ι := ι₁) d fraction)
      (Parser.literal (ι := ι₂) d fraction) := by
  intro s t hst
  have hdigits : At (if startsWith '-' s then Cursor.tail s else s)
      (if startsWith '-' t then Cursor.tail t else t) := by
    rw [startsWith_eq h '-' hst]
    split
    · exact h.tail hst
    · exact hst
  have hout := ofClass1 h .digit hdigits
  unfold Parser.literal
  dsimp only
  generalize Parser.ofClass1 .digit (if startsWith '-' s then Cursor.tail s else s) = x at hout ⊢
  generalize Parser.ofClass1 .digit (if startsWith '-' t then Cursor.tail t else t) = y at hout ⊢
  cases hout with
  | @success a b r u _ hr =>
      have hend : At (if fraction then behindFraction r else r)
          (if fraction then behindFraction u else u) := by
        split
        · exact behindFraction_alike h hr
        · exact hr
      exact .success (h.span hst hend) hend
  | failure he _ =>
      dsimp only
      rw [startsWith_eq h '-' hst]
      split
      · exact .failure ⟨he.position, rfl, rfl⟩ hst
      · exact .failure ⟨hst, rfl, rfl⟩ hst

theorem convert {R : α₁ → α₂ → Prop} {read : List Char → Except Cause α₁}
    {read' : List Char → Except Cause α₂} (hread : ∀ cs, Answers Eq R (read cs) (read' cs))
    {lit : Parser ι₁ (ParseError ι₁) (Span ι₁)} {lit' : Parser ι₂ (ParseError ι₂) (Span ι₂)}
    (hlit : Parser.Alike At (ParseError.Alike At) (Span.Alike At) lit lit') :
    Parser.Alike At (ParseError.Alike At) R (Parser.convert read lit)
      (Parser.convert read' lit') := by
  intro s t hst
  have hout := hlit hst
  unfold Parser.convert
  generalize lit s = x at hout ⊢
  generalize lit' t = y at hout ⊢
  cases hout with
  | failure he ho => exact .failure he ho
  | @success u v _ _ huv hr =>
      have hval := hread (v.toList.map Symbol.toChar)
      dsimp only
      rw [huv.chars_eq h]
      generalize read (v.toList.map Symbol.toChar) = x at hval ⊢
      generalize read' (v.toList.map Symbol.toChar) = y at hval ⊢
      cases hval with
      | ok ha => exact .success ha hr
      | error hc => exact .failure ⟨hst, rfl, congrArg some hc⟩ hst

theorem integerAs {R : α₁ → α₂ → Prop} {read : List Char → Except Cause α₁}
    {read' : List Char → Except Cause α₂} (hread : ∀ cs, Answers Eq R (read cs) (read' cs)) :
    Parser.Alike At (ParseError.Alike At) R (Parser.integerAs (ι := ι₁) read)
      (Parser.integerAs (ι := ι₂) read') :=
  convert h hread (literal h "integer" false)

theorem integer (t : LiteralType) :
    Parser.Alike At (ParseError.Alike At) Eq (Parser.integer (ι := ι₁) t)
      (Parser.integer (ι := ι₂) t) :=
  integerAs h fun _ => .refl _

theorem number :
    Parser.Alike At (ParseError.Alike At) Eq (Parser.number (ι := ι₁))
      (Parser.number (ι := ι₂)) :=
  convert h (fun _ => .ok rfl) (literal h "number" true)

end Parser.Alike

/-- The same primitive, at two kinds of input. -/
inductive Primitive.Alike [Cursor ι₁ σ₁] [Symbol σ₁] [Cursor ι₂ σ₂] [Symbol σ₂]
    (At : ι₁ → ι₂ → Prop) : {α₁ α₂ : Type} → (α₁ → α₂ → Prop) →
    Primitive ι₁ σ₁ α₁ → Primitive ι₂ σ₂ α₂ → Prop
  | char (c : Char) : Alike At Symbol.Alike (.char c) (.char c)
  | oneOf (set : Text) : Alike At Symbol.Alike (.oneOf set) (.oneOf set)
  | noneOf (set : Text) : Alike At Symbol.Alike (.noneOf set) (.noneOf set)
  | satisfy {accepts : σ₁ → Bool} {accepts' : σ₂ → Bool}
      (h : ∀ x y, Symbol.Alike x y → accepts x = accepts' y) :
      Alike At Symbol.Alike (.satisfy accepts) (.satisfy accepts')
  | anySymbol : Alike At Symbol.Alike .anySymbol .anySymbol
  | lineFeed : Alike At Symbol.Alike .lineFeed .lineFeed
  | carriageReturn : Alike At Symbol.Alike .carriageReturn .carriageReturn
  | space : Alike At Symbol.Alike .space .space
  | tab : Alike At Symbol.Alike .tab .tab
  | token (pattern : Text) : Alike At (Span.Alike At) (.token pattern) (.token pattern)
  | take (n : Nat) : Alike At (Span.Alike At) (.take n) (.take n)
  | takeWhileBetween (least most : Nat) {accepts : σ₁ → Bool} {accepts' : σ₂ → Bool}
      (h : ∀ x y, Symbol.Alike x y → accepts x = accepts' y) :
      Alike At (Span.Alike At) (.takeWhileBetween least most accepts)
        (.takeWhileBetween least most accepts')
  | takeWhile {accepts : σ₁ → Bool} {accepts' : σ₂ → Bool}
      (h : ∀ x y, Symbol.Alike x y → accepts x = accepts' y) :
      Alike At (Span.Alike At) (.takeWhile accepts) (.takeWhile accepts')
  | takeWhile1 {accepts : σ₁ → Bool} {accepts' : σ₂ → Bool}
      (h : ∀ x y, Symbol.Alike x y → accepts x = accepts' y) :
      Alike At (Span.Alike At) (.takeWhile1 accepts) (.takeWhile1 accepts')
  | ofClass (k : CharClass) : Alike At (Span.Alike At) (.ofClass k) (.ofClass k)
  | ofClass1 (k : CharClass) : Alike At (Span.Alike At) (.ofClass1 k) (.ofClass1 k)
  | crlf : Alike At (Span.Alike At) .crlf .crlf
  | newline : Alike At (Span.Alike At) .newline .newline
  | integer (t : LiteralType) : Alike At Eq (.integer t) (.integer t)
  | number : Alike At Eq .number .number

theorem Primitive.Alike.parse [Cursor ι₁ σ₁] [Symbol σ₁] [Cursor ι₂ σ₂] [Symbol σ₂]
    (h : Correspondence At) {R : α₁ → α₂ → Prop} {p : Primitive ι₁ σ₁ α₁} {q : Primitive ι₂ σ₂ α₂}
    (hpq : Primitive.Alike At R p q) :
    Parser.Alike At (ParseError.Alike At) R p.parse q.parse := by
  have hset : ∀ (f : Char → Bool) (x : σ₁) (y : σ₂), Symbol.Alike x y →
      f (Symbol.toChar x) = f (Symbol.toChar y) := fun f _ _ hxy => congrArg f hxy
  cases hpq with
  | char c => exact .symbolWhere h _ (hset (· == c))
  | oneOf set =>
      exact .symbolWhere h _ (hset fun c => (Cursor.toList set).any (c == ·))
  | noneOf set =>
      exact .symbolWhere h _ (hset fun c => (Cursor.toList set).all (!c == ·))
  | satisfy hacc => exact .symbolWhere h _ hacc
  | anySymbol => exact .anySymbol h
  | lineFeed => exact .named h _ _
  | carriageReturn => exact .named h _ _
  | space => exact .named h _ _
  | tab => exact .named h _ _
  | token pattern => exact .token h pattern
  | take n => exact .take h n
  | takeWhileBetween least most hacc => exact .takeWhileBetween h least most hacc
  | takeWhile hacc => exact .takeWhileBetween h 0 Parser.maxCount hacc
  | takeWhile1 hacc => exact .takeWhileBetween h 1 Parser.maxCount hacc
  | ofClass k => exact .ofClass h k
  | ofClass1 k => exact .ofClass1 h k
  | crlf => exact .crlf h
  | newline => exact .newline h
  | integer t => exact .integer h t
  | number => exact .number h

end ParserAlgebra
