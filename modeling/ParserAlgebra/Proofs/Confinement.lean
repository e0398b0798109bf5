import ParserAlgebra.Proofs.Parametric

/-!
# Confinement

A span has no end of its own: it stops where two lengths meet.  What is read through a span is
nevertheless what would be read from its text alone, whatever follows the span in its buffer, and
the same goes for spans of spans.

* `Storage` — ways of storing symbols in which lengths add up; cutting a span out of a longer buffer
  is one again (`Storage.confine`), and so is doing it over and over (`Wraps.storage`).
* `SameStored` — the places at which one text is left, stored in two ways.
* `Grammar.parse_confined` — a tree gives the same result, at any depth of spans.
-/

set_option autoImplicit false

namespace ParserAlgebra

variable {ι σ ι₁ ι₂ α₁ α₂ : Type}

/-! ## Storage -/

/-- A way of storing symbols: each is taken off the front of the rest, and lengths add up. -/
structure Storage [Cursor ι σ] (store : List σ → ι) : Prop where
  next?_cons (x : σ) (xs : List σ) : Cursor.next? (store (x :: xs)) = some (x, store xs)
  length_append (xs ys : List σ) :
    Cursor.length (store (xs ++ ys)) = Cursor.length (store xs) + Cursor.length (store ys)

theorem Text.storage : Storage Text.ofList where
  next?_cons _ _ := congrArg some (Prod.ext rfl (Text.ext rfl))
  length_append := utf8Length_append

theorem Slice.storage : Storage (Slice.ofList : List σ → Slice σ) where
  next?_cons _ _ := congrArg some (Prod.ext rfl (Slice.ext rfl))
  length_append _ _ := List.length_append

theorem AsciiText.storage : Storage AsciiText.ofList where
  next?_cons _ _ := congrArg some (Prod.ext rfl (congrArg AsciiText.mk (Slice.ext rfl)))
  length_append _ _ := List.length_append

namespace Storage

variable [Cursor ι σ] {store : List σ → ι} (h : Storage store)

include h

theorem length_nil : Cursor.length (store []) = 0 := by
  have hlen : Cursor.length (store []) = Cursor.length (store []) + Cursor.length (store []) :=
    h.length_append [] []
  omega

theorem next?_nil : Cursor.next? (store []) = none :=
  (Cursor.next?_eq_none_iff _).2 h.length_nil

theorem toList_store (xs : List σ) : Cursor.toList (store xs) = xs := by
  induction xs with
  | nil => exact Cursor.toList_of_none h.next?_nil
  | cons x xs ih => rw [Cursor.toList_of_some (h.next?_cons x xs), ih]

/-- A span that starts at a symbol holds it, unless it stops there. -/
theorem next?_between (x : σ) (xs : List σ) (stop : ι) :
    Cursor.next? (⟨store (x :: xs), stop⟩ : Span ι) =
      if Cursor.length (store (x :: xs)) ≤ Cursor.length stop then none
      else some (x, ⟨store xs, stop⟩) := by
  show Span.next? ⟨store (x :: xs), stop⟩ = _
  rw [Span.next?, h.next?_cons]
  rfl

/-- A confined text is as long as the text. -/
theorem length_confine (xs tail : List σ) :
    Cursor.length (Span.confine store xs tail) = Cursor.length (store xs) := by
  show Cursor.length (store (xs ++ tail)) - Cursor.length (store tail) = _
  rw [h.length_append, Nat.add_sub_cancel]

/-- A text at the front of a longer buffer is stored there. -/
theorem confine (tail : List σ) : Storage fun xs => Span.confine store xs tail where
  next?_cons x xs := by
    have hlt := Cursor.length_lt_of_next? (h.next?_cons x xs)
    have hlen := h.length_append (x :: xs) tail
    rw [List.cons_append] at hlen
    rw [Span.confine, List.cons_append, h.next?_between, if_neg (by omega)]
    rfl
  length_append xs ys := by
    simp only [h.length_confine]
    exact h.length_append xs ys

end Storage

/-- The ways of storing symbols that lead from `base` through any number of spans, each of them cut
out of a buffer that goes on with a tail. -/
inductive Wraps [Cursor ι σ] (base : List σ → ι) :
    {κ : Type} → [Cursor κ σ] → (List σ → κ) → Prop
  | plain : Wraps base base
  | span {κ : Type} [Cursor κ σ] {store : List σ → κ} (h : Wraps base store) (tail : List σ) :
      Wraps base fun xs => Span.confine store xs tail

namespace Wraps

variable [Cursor ι σ] {base : List σ → ι} [Cursor ι₁ σ] {store : List σ → ι₁}

theorem storage (hbase : Storage base) (h : Wraps base store) : Storage store := by
  induction h with
  | plain => exact hbase
  | span _ tail ih => exact ih.confine tail

theorem length_eq (hbase : Storage base) (h : Wraps base store) (xs : List σ) :
    Cursor.length (store xs) = Cursor.length (base xs) := by
  induction h with
  | plain => rfl
  | span h tail ih => rw [(h.storage hbase).length_confine, ih]

/-- A span between two places holds what it would hold in the innermost buffer. -/
theorem symbols_between (hbase : Storage base) (h : Wraps base store) (xs ys : List σ) :
    Cursor.toList (⟨store xs, store ys⟩ : Span ι₁) =
      Cursor.toList (⟨base xs, base ys⟩ : Span ι) := by
  -- either way the span stops by the lengths in `base`
  have hlen := h.length_eq hbase
  induction xs with
  | nil =>
      have hlen₁ := (h.storage hbase).length_nil
      have hlen₀ := hbase.length_nil
      rw [Cursor.toList_eq_nil_iff.2, Cursor.toList_eq_nil_iff.2]
      · show Cursor.length (base []) - Cursor.length (base ys) = 0
        omega
      · show Cursor.length (store []) - Cursor.length (store ys) = 0
        omega
  | cons x xs ih =>
      have hstore := (h.storage hbase).next?_between x xs (store ys)
      have hcons := hbase.next?_between x xs (base ys)
      rw [hlen, hlen] at hstore
      by_cases hle : Cursor.length (base (x :: xs)) ≤ Cursor.length (base ys)
      · rw [if_pos hle] at hstore hcons
        rw [Cursor.toList_of_none hstore, Cursor.toList_of_none hcons]
      · rw [if_neg hle] at hstore hcons
        rw [Cursor.toList_of_some hstore, Cursor.toList_of_some hcons, ih]

end Wraps

/-! ## Places -/

/-- Inputs with the same symbols and of the same length. -/
structure Cursor.Agree [Cursor ι₁ σ] [Cursor ι₂ σ] (s : ι₁) (t : ι₂) : Prop where
  symbols : Cursor.toList s = Cursor.toList t
  length : Cursor.length s = Cursor.length t

/-- Inputs that hold the same symbols, stored in two ways. -/
def SameStored (store₁ : List σ → ι₁) (store₂ : List σ → ι₂) (s : ι₁) (t : ι₂) : Prop :=
  ∃ xs, s = store₁ xs ∧ t = store₂ xs

section Places

variable [Cursor ι σ] {base : List σ → ι} (hbase : Storage base) [Cursor ι₁ σ] [Cursor ι₂ σ]
  {store₁ : List σ → ι₁} {store₂ : List σ → ι₂} (h₁ : Wraps base store₁) (h₂ : Wraps base store₂)

include hbase h₁ h₂

theorem SameStored.agree {s : ι₁} {t : ι₂} (h : SameStored store₁ store₂ s t) :
    Cursor.Agree s t := by
  obtain ⟨xs, rfl, rfl⟩ := h
  constructor
  · rw [(h₁.storage hbase).toList_store, (h₂.storage hbase).toList_store]
  · rw [h₁.length_eq hbase, h₂.length_eq hbase]

/-- No parser can tell how deep in spans its input is. -/
theorem SameStored.correspondence [Symbol σ] : Correspondence (SameStored store₁ store₂) where
  next := by
    rintro _ _ ⟨xs, rfl, rfl⟩
    cases xs with
    | nil => exact .inl ⟨(h₁.storage hbase).next?_nil, (h₂.storage hbase).next?_nil⟩
    | cons x xs =>
        have hs := (h₁.storage hbase).next?_cons x xs
        have ht := (h₂.storage hbase).next?_cons x xs
        exact .inr ⟨x, store₁ xs, x, store₂ xs, hs, ht, rfl, xs, rfl, rfl⟩
  shorter hst hst' := by
    rw [(agree hbase h₁ h₂ hst).length, (agree hbase h₁ h₂ hst').length]

/-- Spans with such ends agree. -/
theorem Span.Alike.agree [Symbol σ] {u : Span ι₁} {v : Span ι₂}
    (h : Span.Alike (SameStored store₁ store₂) u v) : Cursor.Agree u v := by
  obtain ⟨start, stop⟩ := u
  obtain ⟨start', stop'⟩ := v
  have hstart := SameStored.agree hbase h₁ h₂ h.start
  have hstop := SameStored.agree hbase h₁ h₂ h.stop
  obtain ⟨⟨xs, rfl, rfl⟩, ⟨ys, rfl, rfl⟩, -⟩ := h
  constructor
  · rw [h₁.symbols_between hbase, h₂.symbols_between hbase]
  · exact congrArg₂ (· - ·) hstart.length hstop.length

end Places

/-! ## Results -/

/-- What a tree's outcomes at `w₁` and `w₂` have in common.  Both are values that correspond, and
the inputs that remain agree; or both are errors of the same severity, with the same descriptors and
the same cause, equally far from `w₁` and from `w₂`, and the inputs they point at and are anchored
at agree. -/
inductive Outcome.Agree [Cursor ι₁ σ] [Cursor ι₂ σ] (w₁ : ι₁) (w₂ : ι₂) (R : α₁ → α₂ → Prop) :
    Outcome ι₁ (ParseError ι₁) α₁ → Outcome ι₂ (ParseError ι₂) α₂ → Prop
  | success {a : α₁} {b : α₂} {r : ι₁} {t : ι₂} (value : R a b) (rest : Cursor.Agree r t) :
      Agree w₁ w₂ R (.success a r) (.success b t)
  | failure {e : ParseError ι₁} {f : ParseError ι₂} {o : ι₁} {u : ι₂}
      (severity : e.isFatal = f.isFatal) (expected : e.expected = f.expected)
      (cause : e.cause = f.cause) (offset : e.offset w₁ = f.offset w₂)
      (position : Cursor.Agree e.position f.position) (origin : Cursor.Agree o u) :
      Agree w₁ w₂ R (.failure e o) (.failure f u)

theorem Outcome.Agree.consumed_eq [Cursor ι₁ σ] [Cursor ι₂ σ] {w₁ : ι₁} {w₂ : ι₂}
    {R : α₁ → α₂ → Prop} {x : Outcome ι₁ (ParseError ι₁) α₁} {y : Outcome ι₂ (ParseError ι₂) α₂}
    (h : Outcome.Agree w₁ w₂ R x y) (hw : Cursor.Agree w₁ w₂) : x.consumed w₁ = y.consumed w₂ := by
  cases h with
  | success _ hr => rw [consumed, consumed, hw.length, hr.length]
  | failure => rfl

/-- **What follows a span is never read.**  A tree gives the same result on a text by itself, on a
span of a buffer that starts with the text, and on spans of spans, whatever follows any of them; it
consumes the same length, and the spans it recognises agree. -/
theorem Grammar.parse_confined [Cursor ι σ] {base : List σ → ι} (hbase : Storage base)
    [Cursor ι₁ σ] [Cursor ι₂ σ] [Symbol σ] {store₁ : List σ → ι₁} {store₂ : List σ → ι₂}
    (h₁ : Wraps base store₁) (h₂ : Wraps base store₂) {R : α₁ → α₂ → Prop}
    {g₁ : Grammar ι₁ σ (ParseError ι₁) α₁} {g₂ : Grammar ι₂ σ (ParseError ι₂) α₂}
    (hg : Grammar.Alike (SameStored store₁ store₂) (ParseError.Alike (SameStored store₁ store₂)) R
      g₁ g₂) (text : List σ) :
    Outcome.Agree (store₁ text) (store₂ text) R (g₁.parse (store₁ text))
      (g₂.parse (store₂ text)) ∧
    (g₁.parse (store₁ text)).consumed (store₁ text) =
      (g₂.parse (store₂ text)).consumed (store₂ text) ∧
    ∀ (u : Span ι₁) (v : Span ι₂), Span.Alike (SameStored store₁ store₂) u v →
      Cursor.Agree u v := by
  have hagree := fun s t => SameStored.agree (s := s) (t := t) hbase h₁ h₂
  have hcorr := SameStored.correspondence hbase h₁ h₂
  have hplace : SameStored store₁ store₂ (store₁ text) (store₂ text) := ⟨text, rfl, rfl⟩
  have hwhole := hagree _ _ hplace
  have hresult : Outcome.Agree (store₁ text) (store₂ text) R (g₁.parse (store₁ text))
      (g₂.parse (store₂ text)) := by
    have hout := hg.parse hcorr (ParseError.diagnostic_alike hcorr) hplace
    generalize g₁.parse (store₁ text) = x at hout ⊢
    generalize g₂.parse (store₂ text) = y at hout ⊢
    cases hout with
    | success ha hr => exact .success ha (hagree _ _ hr)
    | failure he ho =>
        have hposition := hagree _ _ he.position
        have hoffset := congrArg₂ (· - ·) hwhole.length hposition.length
        have hfatal := congrArg Option.isSome he.cause
        exact .failure hfatal he.expected he.cause hoffset hposition (hagree _ _ ho)
  exact ⟨hresult, hresult.consumed_eq hwhole, fun u v => Span.Alike.agree hbase h₁ h₂⟩

/-- The places of the pieces between commas. -/
def pieces (ι : Type) {σ : Type} [Cursor ι σ] [Symbol σ] :
    Grammar ι σ (ParseError ι) (List (Span ι)) :=
  .sepBy1 (.primitive (.char ','))
    (.spanOf (.many1 (.primitive (.satisfy fun x => Symbol.toChar x != ','))))

theorem pieces_alike [Cursor ι₁ σ] [Cursor ι₂ σ] [Symbol σ] (At : ι₁ → ι₂ → Prop) :
    Grammar.Alike At (ParseError.Alike At) (List.Forall₂ (Span.Alike At)) (pieces ι₁)
      (pieces ι₂) := by
  refine .sepBy1 (.primitive (fun _ _ he => he) (.char ',')) ?_
  refine .spanOf (.many1 (R := Symbol.Alike) (.primitive (fun _ _ he => he) ?_))
  exact .satisfy fun x y hxy => congrArg (· != ',') hxy

/-- A text at the front of a buffer that goes on with `tail`. -/
def followedBy (tail text : List Char) : Span Text := Span.confine Text.ofList text tail

/-- A text in a span that is followed by `é`, in a span that is followed by `,ñ`. -/
def spanOfSpan (text : List Char) : Span (Span Text) :=
  Span.confine (followedBy ['é']) text [',', 'ñ']

/-- Two pieces of ASCII characters. -/
def asciiPieces : List Ascii := "a,b".toList.filterMap Ascii.ofChar?

/-- A text of ASCII characters at the front of a buffer that goes on with these pieces. -/
def beforePieces (text : List Ascii) : Span AsciiText :=
  Span.confine AsciiText.ofList text asciiPieces

/-- Two pieces by themselves and in a span of a span, a last comma with and without a piece behind the
span, and two pieces of ASCII characters by themselves and in front of the same pieces. -/
theorem parse_confined_pieces :
    Outcome.Agree (Text.ofString "né,é") (spanOfSpan "né,é".toList)
      (List.Forall₂ (Span.Alike (SameStored Text.ofList spanOfSpan)))
      ((pieces Text).parse (.ofString "né,é"))
      ((pieces (Span (Span Text))).parse (spanOfSpan "né,é".toList)) ∧
    Outcome.Agree (followedBy ['é'] "né,".toList) (followedBy [] "né,".toList)
      (List.Forall₂ (Span.Alike (SameStored (followedBy ['é']) (followedBy []))))
      ((pieces (Span Text)).parse (followedBy ['é'] "né,".toList))
      ((pieces (Span Text)).parse (followedBy [] "né,".toList)) ∧
    Outcome.Agree (AsciiText.ofString "a,b") (beforePieces asciiPieces)
      (List.Forall₂ (Span.Alike (SameStored AsciiText.ofList beforePieces)))
      ((pieces AsciiText).parse (.ofString "a,b"))
      ((pieces (Span AsciiText)).parse (beforePieces asciiPieces)) := by
  have hshort : ∀ tail, Wraps Text.ofList (followedBy tail) := fun tail => .span .plain tail
  have hspan : Wraps Text.ofList spanOfSpan := .span (hshort ['é']) [',', 'ñ']
  have hpieces := Grammar.parse_confined Text.storage .plain hspan (pieces_alike _) "né,é".toList
  have htails := Grammar.parse_confined Text.storage (hshort ['é']) (hshort []) (pieces_alike _)
    "né,".toList
  have hbefore : Wraps AsciiText.ofList beforePieces := .span .plain asciiPieces
  have hascii := Grammar.parse_confined AsciiText.storage .plain hbefore (pieces_alike _) asciiPieces
  exact ⟨hpieces.1, htails.1, hascii.1⟩

end ParserAlgebra
