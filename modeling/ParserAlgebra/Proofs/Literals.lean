import ParserAlgebra.Proofs.Consumption
import ParserAlgebra.Proofs.DecimalText
import ParserAlgebra.Proofs.SymbolRuns

/-!
# Literals

What a literal takes, and how it fails, is told by the characters of the input alone: by the integer
at their front, and by the fraction behind it where one is allowed.  The input has to have a length
that fits in 64 bits, since runs of digits are counted.

* `CharClass.digit_contains` — the digits are the ten characters from `0` to `9`.
* `Parser.literal_eq` — a literal, by the characters of its input.
* `Parser.convert_literal` — its value is that of the characters it takes.
-/

set_option autoImplicit false

namespace ParserAlgebra

open Cursor (chars Suffix)
open Decimal

theorem CharClass.digit_contains {σ : Type} [Symbol σ] (x : σ) :
    digit.contains x = (Symbol.toChar x).isDigit := by
  have hnine : '9'.toNat = 57 := rfl
  rw [Bool.eq_iff_iff, Char.isDigit_iff_toNat, contains, Symbol.ascii?, Ascii.ofChar?]
  split
  · simp [containsAscii, Ascii.isDigit, Ascii.between]
  · rename_i hlarge
    simp only [Option.any_none, Bool.false_eq_true, false_iff]
    omega

namespace Parser

variable {ι σ α : Type} [Cursor ι σ] [Symbol σ] {s : ι}

/-! ## The front of the input -/

theorem startsWith_eq_head? (c : Char) (s : ι) : startsWith c s = ((chars s).head? == some c) := by
  unfold startsWith Cursor.peek? chars
  cases h : Cursor.next? s with
  | none => simp [Cursor.toList_of_none h]
  | some p => simp [Cursor.toList_of_some (x := p.1) (t := p.2) h]

theorem startsWith_minus (s : ι) : startsWith '-' s = negative (chars s) :=
  startsWith_eq_head? '-' s

theorem chars_tail (s : ι) : chars (Cursor.tail s) = (chars s).tail := by
  rw [Cursor.tail_eq_advance, Cursor.chars_advance, List.drop_one]

/-- A run of digits, by the characters. -/
theorem ofClass1_digit (hs : Cursor.length s < 2 ^ 64) :
    ofClass1 .digit s =
      let n := ((chars s).takeWhile Char.isDigit).length
      if n = 0 then .failure (.new s ["digit"]) s
      else .success ⟨s, (Cursor.advance n s).2⟩ (Cursor.advance n s).2 := by
  have hrun : ((chars s).takeWhile Char.isDigit).length =
      ((Cursor.toList s).takeWhile (CharClass.digit.contains ·)).length := by
    have hclass : (Char.isDigit ∘ Symbol.toChar : σ → Bool) = (CharClass.digit.contains ·) :=
      funext fun x => (CharClass.digit_contains x).symm
    rw [chars, List.takeWhile_map, List.length_map, hclass]
  rw [ofClass1_eq .digit hs, hrun]
  rfl

/-- The run of digits behind a sign, from the start of the literal. -/
theorem ofClass1_behind_sign (hs : Cursor.length s < 2 ^ 64) :
    ofClass1 .digit (if startsWith '-' s then Cursor.tail s else s) =
      let t := if startsWith '-' s then Cursor.tail s else s
      if digits (chars s) = [] then .failure (.new t ["digit"]) t
      else .success ⟨t, (Cursor.advance (integerLength (chars s)) s).2⟩
        (Cursor.advance (integerLength (chars s)) s).2 := by
  have hle := (Advances.behindSign_suffix s).length_le
  rw [ofClass1_digit (by omega), startsWith_minus, digits, integerLength, digits]
  by_cases h : negative (chars s) = true
  · simp only [if_pos h, chars_tail, List.length_eq_zero_iff]
    rw [Cursor.tail_eq_advance, Cursor.advance_advance]
  · simp only [if_neg h, List.length_eq_zero_iff, Nat.zero_add]

theorem chars_of_startsWith {c : Char} (h : startsWith c s = true) :
    chars s = c :: chars (Cursor.tail s) := by
  rw [startsWith_eq_head?, beq_iff_eq, List.head?_eq_some_iff] at h
  obtain ⟨cs, hcs⟩ := h
  rw [chars_tail, hcs, List.tail_cons]

/-- The fraction at the front of the input is skipped, if there is one. -/
theorem behindFraction_eq (hs : Cursor.length s < 2 ^ 64) :
    behindFraction s = (Cursor.advance (fractionLength (behindPoint (chars s))) s).2 := by
  unfold behindFraction
  by_cases h : startsWith '.' s = true
  · have hle := (Cursor.suffix_tail s).length_le
    rw [if_pos h, ofClass1_digit (by omega), chars_of_startsWith h, behindPoint, fractionLength]
    dsimp only
    by_cases hn : (chars (Cursor.tail s)).takeWhile Char.isDigit = []
    · rw [if_pos (List.length_eq_zero_iff.2 hn), if_pos hn, Cursor.advance_zero]
    · rw [if_neg (mt List.length_eq_zero_iff.1 hn), if_neg hn, Nat.add_comm,
        ← Cursor.advance_advance, ← Cursor.tail_eq_advance]
  · have hno : behindPoint (chars s) = [] := by
      unfold behindPoint
      split
      · rename_i hcs
        rw [startsWith_eq_head?, hcs] at h
        exact absurd rfl h
      · rfl
    rw [if_neg h, hno, fractionLength, if_pos rfl, Cursor.advance_zero]

/-- What a literal does, by the characters of its input. -/
theorem literal_eq (descriptor : String) (fraction : Bool) (hs : Cursor.length s < 2 ^ 64) :
    literal descriptor fraction s =
      if digits (chars s) = [] then
        if negative (chars s) then
          .failure (.newFatal (Cursor.tail s) .noDigitsAfterSign ["digit"]) s
        else .failure (.new s [descriptor]) s
      else
        let n := if fraction then numberLength (chars s) else integerLength (chars s)
        .success ⟨s, (Cursor.advance n s).2⟩ (Cursor.advance n s).2 := by
  unfold literal
  dsimp only
  rw [ofClass1_behind_sign hs]
  dsimp only
  by_cases hdigits : digits (chars s) = []
  · rw [if_pos hdigits, if_pos hdigits, startsWith_minus]
    by_cases h : negative (chars s) = true
    · simp only [if_pos h]
      rfl
    · simp only [if_neg h]
      rfl
  · have hle := (Cursor.suffix_advance (integerLength (chars s)) s).length_le
    rw [if_neg hdigits, if_neg hdigits]
    dsimp only
    rw [behindFraction_eq (by omega), Cursor.advance_advance, Cursor.chars_advance]
    cases fraction
    · rfl
    · rfl

/-- The value of a literal is read from the characters that it takes. -/
theorem convert_literal (read : List Char → Except Cause α) (descriptor : String) (fraction : Bool)
    (hs : Cursor.length s < 2 ^ 64) :
    convert read (literal descriptor fraction) s =
      if digits (chars s) = [] then
        if negative (chars s) then
          .failure (.newFatal (Cursor.tail s) .noDigitsAfterSign ["digit"]) s
        else .failure (.new s [descriptor]) s
      else
        let n := if fraction then numberLength (chars s) else integerLength (chars s)
        match read ((chars s).take n) with
        | .ok a => .success a (Cursor.advance n s).2
        | .error cause => .failure (.newFatal s cause []) s := by
  rw [convert, literal_eq descriptor fraction hs]
  by_cases hdigits : digits (chars s) = []
  · rw [if_pos hdigits, if_pos hdigits]
    by_cases h : negative (chars s) = true
    · rw [if_pos h, if_pos h]
    · rw [if_neg h, if_neg h]
  · rw [if_neg hdigits, if_neg hdigits]
    dsimp only
    rw [Cursor.toList_span_advance, List.map_take]
    rfl

end Parser

end ParserAlgebra
