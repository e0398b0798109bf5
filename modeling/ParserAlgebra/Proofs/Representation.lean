import ParserAlgebra.Proofs.Parametric
import ParserAlgebra.Proofs.Suffix

/-!
# Representations of a text

The same text can be stored as UTF-8, as bytes, as characters or as ASCII characters.  Its length
depends on how it is stored, but of two places in it the same one is further on, so a tree gives the
same result on all of them.

* `SameText` — the places behind equally many symbols of one text, in two representations.
* `SameText.correspondence` — no parser can tell the representations apart.
* `Grammar.representation_independent` — what this means for the result of a tree.
-/

set_option autoImplicit false

namespace ParserAlgebra

open Cursor (Suffix)

/-! ## Texts and what holds them -/

theorem Text.text_ofString (s : String) : Cursor.text (Text.ofString s) = s := by
  unfold Cursor.text Symbol.textOf
  rw [Text.toList_eq]
  show String.ofList (s.toList.map fun c => c) = s
  rw [List.map_id', String.ofList_toList]

theorem Slice.text_ofList {σ : Type} [Symbol σ] (xs : List σ) :
    Cursor.text (Slice.ofList xs) = Symbol.textOf xs := by
  unfold Cursor.text
  rw [Slice.toList_eq]
  rfl

theorem text_ofList_toList (s : String) : Cursor.text (Slice.ofList s.toList) = s := by
  rw [Slice.text_ofList]
  show String.ofList (s.toList.map fun c => c) = s
  rw [List.map_id', String.ofList_toList]

theorem charOfByte_toUInt8 {c : Char} (h : c.toNat < 256) : charOfByte c.toNat.toUInt8 = c := by
  refine Char.toNat_inj.1 ?_
  rw [toNat_charOfByte]
  show c.toNat % 256 = c.toNat
  exact Nat.mod_eq_of_lt h

/-- A text is held by its bytes if there is a byte for each of its characters. -/
theorem text_latin1 {s : String} (h : ∀ c ∈ s.toList, c.toNat < 256) :
    Cursor.text (latin1 s) = s := by
  unfold latin1
  rw [Slice.text_ofList, Symbol.textOf, List.map_map]
  refine Eq.trans (congrArg String.ofList ?_) String.ofList_toList
  exact (List.map_congr_left fun c hc => charOfByte_toUInt8 (h c hc)).trans (List.map_id' _)

theorem Ascii.filterMap_ofChar? {cs : List Char} (h : ∀ c ∈ cs, c.toNat < 128) :
    (cs.filterMap Ascii.ofChar?).map Ascii.toChar = cs := by
  induction cs with
  | nil => rfl
  | cons c cs ih =>
      have hc : Ascii.ofChar? c = some ⟨c.toNat, h c List.mem_cons_self⟩ :=
        dif_pos (h c List.mem_cons_self)
      rw [List.filterMap_cons_some hc, List.map_cons,
        ih fun d hd => h d (List.mem_cons_of_mem c hd)]
      exact congrArg (· :: cs) (Char.toNat_inj.1 rfl)

/-- A text is held by its ASCII characters if it has no others. -/
theorem AsciiText.text_ofString {s : String} (h : ∀ c ∈ s.toList, c.toNat < 128) :
    Cursor.text (AsciiText.ofString s) = s := by
  unfold Cursor.text Symbol.textOf
  rw [AsciiText.toList_eq]
  show String.ofList ((s.toList.filterMap Ascii.ofChar?).map Ascii.toChar) = s
  rw [Ascii.filterMap_ofChar? h, String.ofList_toList]

/-! ## Places in one text -/

variable {ι₁ σ₁ ι₂ σ₂ α₁ α₂ : Type} [Cursor ι₁ σ₁] [Symbol σ₁] [Cursor ι₂ σ₂] [Symbol σ₂]

/-- Places in two inputs behind which the same symbols are left. -/
structure SameText (w₁ : ι₁) (w₂ : ι₂) (s : ι₁) (t : ι₂) : Prop where
  left : Suffix s w₁
  right : Suffix t w₂
  chars : (Cursor.toList s).map Symbol.toChar = (Cursor.toList t).map Symbol.toChar

namespace SameText

variable {w₁ : ι₁} {w₂ : ι₂}

theorem length_eq {s : ι₁} {t : ι₂} (h : SameText w₁ w₂ s t) :
    (Cursor.toList s).length = (Cursor.toList t).length := by
  simpa using congrArg List.length h.chars

theorem text_eq {s : ι₁} {t : ι₂} (h : SameText w₁ w₂ s t) : Cursor.text s = Cursor.text t :=
  congrArg String.ofList h.chars

theorem inStep : InStep (SameText w₁ w₂) := by
  intro s t h
  have hchars := h.chars
  cases hs : Cursor.next? s with
  | none =>
      rw [Cursor.toList_of_none hs] at hchars
      have ht : Cursor.toList t = [] := List.map_eq_nil_iff.1 hchars.symm
      rw [Cursor.toList_eq_nil_iff, ← Cursor.next?_eq_none_iff] at ht
      exact .inl ⟨rfl, ht⟩
  | some p =>
      obtain ⟨x, s'⟩ := p
      cases ht : Cursor.next? t with
      | none =>
          rw [Cursor.toList_of_some hs, Cursor.toList_of_none ht] at hchars
          cases hchars
      | some q =>
          obtain ⟨y, t'⟩ := q
          rw [Cursor.toList_of_some hs, Cursor.toList_of_some ht, List.map_cons, List.map_cons,
            List.cons.injEq] at hchars
          refine .inr ⟨x, s', y, t', rfl, rfl, hchars.1, ?_⟩
          exact ⟨(Cursor.suffix_of_next? hs).trans h.left,
            (Cursor.suffix_of_next? ht).trans h.right, hchars.2⟩

theorem correspondence : Correspondence (SameText w₁ w₂) where
  next := inStep
  shorter {s s' t t'} h h' := by
    rw [h.left.length_lt_iff h'.left, h.right.length_lt_iff h'.right, h.length_eq, h'.length_eq]

end SameText

/-! ## Results -/

/-- What a tree's outcomes on two representations of a text have in common.  Both are values that
correspond, with the same text left; or both are errors of the same severity with the same
descriptors and cause, which point at places with equally many symbols left. -/
inductive Outcome.SameResult (R : α₁ → α₂ → Prop) :
    Outcome ι₁ (ParseError ι₁) α₁ → Outcome ι₂ (ParseError ι₂) α₂ → Prop
  | success {a : α₁} {b : α₂} {r : ι₁} {t : ι₂} (value : R a b)
      (rest : Cursor.text r = Cursor.text t) : SameResult R (.success a r) (.success b t)
  | failure {e : ParseError ι₁} {f : ParseError ι₂} {o : ι₁} {u : ι₂}
      (severity : e.isFatal = f.isFatal) (expected : e.expected = f.expected)
      (cause : e.cause.map Cause.message = f.cause.map Cause.message)
      (left : (Cursor.toList e.position).length = (Cursor.toList f.position).length) :
      SameResult R (.failure e o) (.failure f u)

/-- **A tree gives the same result on all representations of a text**, however long they are in
storage. -/
theorem Grammar.representation_independent {w₁ : ι₁} {w₂ : ι₂}
    (hw : Cursor.text w₁ = Cursor.text w₂) {R : α₁ → α₂ → Prop}
    {g₁ : Grammar ι₁ σ₁ (ParseError ι₁) α₁} {g₂ : Grammar ι₂ σ₂ (ParseError ι₂) α₂}
    (hg : Grammar.Alike (SameText w₁ w₂) (ParseError.Alike (SameText w₁ w₂)) R g₁ g₂) :
    Outcome.SameResult R (g₁.parse w₁) (g₂.parse w₂) := by
  have hplace : SameText w₁ w₂ w₁ w₂ := ⟨.refl w₁, .refl w₂, String.ofList_injective hw⟩
  have hcorr : Correspondence (SameText w₁ w₂) := SameText.correspondence
  have hout := hg.parse hcorr (ParseError.diagnostic_alike hcorr) hplace
  generalize g₁.parse w₁ = x at hout ⊢
  generalize g₂.parse w₂ = y at hout ⊢
  cases hout with
  | success ha hr => exact .success ha hr.text_eq
  | failure he ho =>
      refine .failure ?_ he.expected (congrArg _ he.cause) he.position.length_eq
      exact congrArg Option.isSome he.cause

/-- Fields between commas, as texts. -/
def fields (ι σ : Type) [Cursor ι σ] [Symbol σ] : Grammar ι σ (ParseError ι) (List String) :=
  .sepBy (.primitive (.char ',')) (.map Span.text (.primitive (.takeWhile1 fun x =>
    Symbol.toChar x != ',')))

theorem fields_alike (At : ι₁ → ι₂ → Prop) :
    Grammar.Alike At (ParseError.Alike At) (List.Forall₂ Eq) (fields ι₁ σ₁) (fields ι₂ σ₂) := by
  refine .sepBy (.primitive (fun _ _ he => he) (.char ',')) ?_
  refine .map (R := Span.Alike At) (fun _ _ huv => huv.text) (.primitive (fun _ _ he => he) ?_)
  exact .takeWhile1 fun x y hxy => congrArg (· != ',') hxy

/-- Two fields as UTF-8 and as bytes, and two others as characters and as ASCII characters. -/
theorem representation_independent_fields :
    Cursor.text (Text.ofString "é,né") = Cursor.text (latin1 "é,né") ∧
    Outcome.SameResult (List.Forall₂ Eq) ((fields Text Char).parse (.ofString "é,né"))
      ((fields (Slice UInt8) UInt8).parse (latin1 "é,né")) ∧
    Outcome.SameResult (List.Forall₂ Eq) ((fields (Slice Char) Char).parse (.ofList "a,b".toList))
      ((fields AsciiText Ascii).parse (AsciiText.ofString "a,b")) := by
  have hlatin : ∀ c ∈ "é,né".toList, c.toNat < 256 := by simp
  have hascii : ∀ c ∈ "a,b".toList, c.toNat < 128 := by simp
  have hbytes : Cursor.text (Text.ofString "é,né") = Cursor.text (latin1 "é,né") := by
    rw [Text.text_ofString, text_latin1 hlatin]
  have hchars : Cursor.text (Slice.ofList "a,b".toList) = Cursor.text (AsciiText.ofString "a,b") := by
    rw [text_ofList_toList, AsciiText.text_ofString hascii]
  refine ⟨hbytes, ?_, ?_⟩
  · exact Grammar.representation_independent hbytes (fields_alike _)
  · exact Grammar.representation_independent hchars (fields_alike _)

end ParserAlgebra
