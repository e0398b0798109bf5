import ParserAlgebra.Numeral
import ParserAlgebra.Proofs.Literals

/-!
# Integer literals

The value of an integer literal is that of its decimal digits, if the type has such a number.
Digits are read from the left and every step is held against the range, but a number that has left
the range never comes back, so only the value of all the digits counts.

* `IntegerType.checked` — a number held against the range.  Behind one that is out of it, all are
  (`IntegerType.checked_error_of_le`).
* `IntegerType.readDigits_eq` — digits read away from zero, one by one, against their value.
* `IntegerType.read_integer` — the value of a sign and digits in a type.
* `Parser.integer_reads_decimal` — integer literals.
-/

set_option autoImplicit false

namespace ParserAlgebra

open Cursor (chars Suffix)
open Decimal

/-! ## Digits -/

theorem digitIn?_of_isDigit {d : Char} (h : d.isDigit = true) :
    digitIn? 10 d = some (d.toNat - '0'.toNat) := by
  obtain ⟨hlo, hhi⟩ := Char.isDigit_iff_toNat.1 h
  have hrange : '0' ≤ d ∧ d ≤ '9' := ⟨hlo, hhi⟩
  have hzero : '0'.toNat = 48 := rfl
  have hnine : '9'.toNat = 57 := rfl
  have hlt : decide (d.toNat - '0'.toNat < 10) = true := decide_eq_true (by omega)
  rw [digitIn?, if_pos hrange]
  exact Option.filter_some_pos hlt

theorem le_ofDigitChars (ds : List Char) (n : Nat) : n ≤ Nat.ofDigitChars 10 ds n := by
  induction ds generalizing n with
  | nil => simp
  | cons d ds ih =>
      have hle := ih (10 * n + (d.toNat - '0'.toNat))
      rw [Nat.ofDigitChars_cons]
      omega

namespace IntegerType

variable (t : IntegerType)

theorem zero_le_largest : 0 ≤ t.largest := by
  have hsigned : (0 : Int) < 2 ^ (t.bits - 1) := Int.pow_pos (by decide)
  have hunsigned : (0 : Int) < 2 ^ t.bits := Int.pow_pos (by decide)
  show 0 ≤ if t.signed then (2 : Int) ^ (t.bits - 1) - 1 else 2 ^ t.bits - 1
  split
  · omega
  · omega

theorem smallest_le_zero : t.smallest ≤ 0 := by
  have hsigned : (0 : Int) < 2 ^ (t.bits - 1) := Int.pow_pos (by decide)
  show (if t.signed then -(2 : Int) ^ (t.bits - 1) else 0) ≤ 0
  split
  · omega
  · exact Int.le_refl 0

theorem signed_of_smallest_neg (h : t.smallest < 0) : t.signed = true := by
  by_contra hunsigned
  rw [smallest, if_neg hunsigned] at h
  omega

/-- The number `n` away from zero, downwards or upwards, if it is in the range. -/
def checked (down : Bool) (n : Nat) : Except NumeralError Int :=
  if down then if -(n : Int) < t.smallest then .error .tooSmall else .ok (-n)
  else if t.largest < n then .error .tooLarge else .ok n

section Range

variable {t} {down : Bool} {m n : Nat} {acc : Int}

theorem checked_zero : t.checked down 0 = .ok 0 := by
  have hlargest := t.zero_le_largest
  have hsmallest := t.smallest_le_zero
  unfold checked
  split
  · exact if_neg (by omega)
  · exact if_neg (by omega)

theorem eq_of_checked (h : t.checked down n = .ok acc) : acc = if down then -(n : Int) else n := by
  unfold checked at h
  split at h
  · rename_i hdown
    split at h
    · cases h
    · cases h
      exact (if_pos hdown).symm
  · rename_i hup
    split at h
    · cases h
    · cases h
      exact (if_neg hup).symm

/-- Further away from zero there is nothing in the range again. -/
theorem checked_error_of_le {fault : NumeralError} (hle : m ≤ n)
    (h : t.checked down m = .error fault) : t.checked down n = .error fault := by
  unfold checked at h ⊢
  split at h
  · rename_i hdown
    split at h
    · cases h
      rw [if_pos hdown, if_pos (by omega)]
    · cases h
  · rename_i hup
    split at h
    · cases h
      rw [if_neg hup, if_pos (by omega)]
    · cases h

theorem readDigits_cons {d : Char} (hd : d.isDigit = true) (ds : List Char)
    (h : t.checked down n = .ok acc) :
    t.readDigits 10 down acc (d :: ds) =
      match t.checked down (10 * n + (d.toNat - '0'.toNat)) with
      | .ok acc => t.readDigits 10 down acc ds
      | .error fault => .error fault := by
  rw [eq_of_checked h, readDigits, digitIn?_of_isDigit hd, checked]
  cases down with
  | false =>
      have hstep : (n : Int) * (10 : Nat) + (d.toNat - '0'.toNat : Nat) =
          (10 * n + (d.toNat - '0'.toNat) : Nat) := by omega
      simp only [Bool.false_eq_true, if_false, hstep]
      split
      · rfl
      · rfl
  | true =>
      have hstep : -(n : Int) * (10 : Nat) - (d.toNat - '0'.toNat : Nat) =
          -((10 * n + (d.toNat - '0'.toNat) : Nat) : Int) := by omega
      simp only [if_true, hstep]
      split
      · rfl
      · rfl

/-- A number that leaves the range at some digit is out of the range in the end. -/
theorem readDigits_eq {ds : List Char} (hds : ∀ d ∈ ds, d.isDigit = true)
    (h : t.checked down n = .ok acc) :
    t.readDigits 10 down acc ds = t.checked down (Nat.ofDigitChars 10 ds n) := by
  induction ds generalizing n acc with
  | nil => rw [readDigits, Nat.ofDigitChars_nil, h]
  | cons d ds ih =>
      obtain ⟨hd, hrest⟩ := List.forall_mem_cons.1 hds
      rw [readDigits_cons hd ds h, Nat.ofDigitChars_cons]
      cases hnext : t.checked down (10 * n + (d.toNat - '0'.toNat)) with
      | ok acc => exact ih hrest hnext
      | error fault => exact (checked_error_of_le (le_ofDigitChars ds _) hnext).symm

end Range

/-! ## Signs -/

theorem ne_sign_of_isDigit {d : Char} (h : d.isDigit = true) : d ≠ '+' ∧ d ≠ '-' := by
  constructor
  · rintro rfl
    revert h
    decide
  · rintro rfl
    revert h
    decide

/-- Digits without a sign are read upwards. -/
theorem read_run {ds : List Char} (hds : IsRun ds) : t.read ds = t.readDigits 10 false 0 ds := by
  obtain ⟨hne, hall⟩ := hds
  unfold read readIn
  split
  · exact absurd rfl hne
  · rename_i c
    have hc := ne_sign_of_isDigit (hall c List.mem_cons_self)
    exact if_neg (by simp [hc.1, hc.2])
  · exact absurd rfl (ne_sign_of_isDigit (hall _ List.mem_cons_self)).1
  · exact absurd rfl (ne_sign_of_isDigit (hall _ List.mem_cons_self)).2
  · rfl

/-- Digits behind a sign are read downwards, if the type has signs. -/
theorem read_minus {ds : List Char} (hds : IsRun ds) :
    t.read ('-' :: ds) =
      if t.signed then t.readDigits 10 true 0 ds else .error .invalidDigit := by
  obtain ⟨hne, -⟩ := hds
  cases ds with
  | nil => exact absurd rfl hne
  | cons d ds => rfl

/-- The integer at the front of a text, in a type. -/
theorem read_integer {cs : List Char} (h : digits cs ≠ []) :
    t.read (sign cs ++ digits cs) =
      if negative cs = true ∧ t.signed = false then .error .invalidDigit
      else if value cs < t.smallest then .error .tooSmall
      else if t.largest < value cs then .error .tooLarge
      else .ok (value cs) := by
  have hrun := isRun_digits h
  have hlargest := t.zero_le_largest
  have hsmallest := t.smallest_le_zero
  unfold sign value
  by_cases hneg : negative cs = true
  · rw [if_pos hneg, if_pos hneg, List.singleton_append, read_minus t hrun]
    by_cases hsigned : t.signed = true
    · have hsmall : ¬ t.largest < -(Nat.ofDigitChars 10 (digits cs) 0 : Int) := by omega
      rw [if_pos hsigned, if_neg (by simp [hsigned]), if_neg hsmall]
      exact readDigits_eq hrun.2 checked_zero
    · rw [if_neg hsigned, if_pos ⟨hneg, Bool.eq_false_iff.2 hsigned⟩]
  · have hlarge : ¬ (Nat.ofDigitChars 10 (digits cs) 0 : Int) < t.smallest := by omega
    rw [if_neg hneg, if_neg hneg, List.nil_append, read_run t hrun, if_neg (by simp [hneg]),
      if_neg hlarge]
    exact readDigits_eq hrun.2 checked_zero

end IntegerType

/-! ## Integer literals -/

namespace Parser

variable {ι σ : Type} [Cursor ι σ] [Symbol σ] (t : IntegerType) {s : ι}

theorem integer_eq (hs : Cursor.length s < 2 ^ 64) :
    integer (.integer t) s =
      if digits (chars s) = [] then
        if negative (chars s) then
          .failure (.newFatal (Cursor.tail s) .noDigitsAfterSign ["digit"]) s
        else .failure (.new s ["integer"]) s
      else if negative (chars s) = true ∧ t.signed = false then
        .failure (.newFatal s (.numeral .invalidDigit) []) s
      else if value (chars s) < t.smallest then
        .failure (.newFatal s (.numeral .tooSmall) []) s
      else if t.largest < value (chars s) then
        .failure (.newFatal s (.numeral .tooLarge) []) s
      else .success (value (chars s)) (Cursor.advance (integerLength (chars s)) s).2 := by
  rw [integer, integerAs, convert_literal _ _ _ hs]
  by_cases hdigits : digits (chars s) = []
  · rw [if_pos hdigits, if_pos hdigits]
  · rw [if_neg hdigits, if_neg hdigits]
    dsimp only [LiteralType.read]
    rw [if_neg Bool.false_ne_true, take_integerLength, t.read_integer hdigits]
    by_cases hsign : negative (chars s) = true ∧ t.signed = false
    · rw [if_pos hsign, if_pos hsign]
      rfl
    rw [if_neg hsign, if_neg hsign]
    by_cases hsmall : value (chars s) < t.smallest
    · rw [if_pos hsmall, if_pos hsmall]
      rfl
    rw [if_neg hsmall, if_neg hsmall]
    by_cases hlarge : t.largest < value (chars s)
    · rw [if_pos hlarge, if_pos hlarge]
      rfl
    · rw [if_neg hlarge, if_neg hlarge]
      rfl

/-- An integer of the type is read back from its decimal form. -/
theorem integer_print (hs : Cursor.length s < 2 ^ 64) {n : Int} (hsmallest : t.smallest ≤ n)
    (hlargest : n ≤ t.largest) {rest : List Char} (hrest : NoDigitHead rest)
    (hchars : chars s = (toString n).toList ++ rest) :
    ∃ r, integer (.integer t) s = .success n r ∧ Suffix r s ∧ chars r = rest := by
  obtain ⟨hdigits, hlen⟩ := digits_print hrest n
  have hvalue := value_print hrest n
  have hneg : negative ((toString n).toList ++ rest) = decide (n < 0) := negative_print n
  rw [← hchars] at hdigits hlen hvalue hneg
  have hsome : digits (chars s) ≠ [] := by
    rw [hdigits]
    exact Nat.toDigits_ne_nil
  -- a negative number is not below the smallest one, so the type has signs
  have hsign : ¬ (negative (chars s) = true ∧ t.signed = false) := by
    rintro ⟨h, hunsigned⟩
    rw [hneg, decide_eq_true_eq] at h
    have hsigned := t.signed_of_smallest_neg (by omega)
    rw [hsigned] at hunsigned
    cases hunsigned
  refine ⟨(Cursor.advance (integerLength (chars s)) s).2, ?_, Cursor.suffix_advance _ _, ?_⟩
  · rw [integer_eq t hs, if_neg hsome, if_neg hsign, hvalue, if_neg (by omega), if_neg (by omega)]
  · rw [Cursor.chars_advance, hlen, hchars, List.drop_left]

/-- **An integer literal is read for its decimal value.**  Without digits there is no literal, and a
minus sign alone is fatal behind it.  With digits, all of them are taken, and the value is that of
the sign and the digits.  A literal whose sign or value the type does not have is fatal, at the
literal.  Every failure is anchored at the input.  So an integer of the type is read back from its
decimal form, whatever text without a digit at its front follows. -/
theorem integer_reads_decimal (s : ι) (hs : Cursor.length s < 2 ^ 64) :
    (∃ r, Suffix r s ∧ chars s = sign (chars s) ++ (digits (chars s) ++ chars r) ∧
      integer (.integer t) s =
        if digits (chars s) = [] then
          if negative (chars s) then
            .failure (.newFatal (Cursor.tail s) .noDigitsAfterSign ["digit"]) s
          else .failure (.new s ["integer"]) s
        else if negative (chars s) = true ∧ t.signed = false then
          .failure (.newFatal s (.numeral .invalidDigit) []) s
        else if value (chars s) < t.smallest then
          .failure (.newFatal s (.numeral .tooSmall) []) s
        else if t.largest < value (chars s) then
          .failure (.newFatal s (.numeral .tooLarge) []) s
        else .success (value (chars s)) r) ∧
    ∀ (n : Int) (rest : List Char), t.smallest ≤ n → n ≤ t.largest → NoDigitHead rest →
      chars s = (toString n).toList ++ rest →
      ∃ r, integer (.integer t) s = .success n r ∧ Suffix r s ∧ chars r = rest := by
  constructor
  · refine ⟨(Cursor.advance (integerLength (chars s)) s).2, Cursor.suffix_advance _ _, ?_,
      integer_eq t hs⟩
    rw [Cursor.chars_advance, ← List.append_assoc, ← take_integerLength, List.take_append_drop]
  · intro n rest hsmallest hlargest hrest hchars
    exact integer_print t hs hsmallest hlargest hrest hchars

/-- The smallest integer of 128 bits, before a letter; and the bytes `-0`, for a type without
signs. -/
theorem integer_reads_decimal_smallest :
    (Text.ofString "-170141183460469231731687303715884105728é").size < 2 ^ 64 ∧
    integer (.integer (.int 128)) (Text.ofString "-170141183460469231731687303715884105728é") =
      .success (-170141183460469231731687303715884105728) (.ofString "é") ∧
    (latin1 "-0").size < 2 ^ 64 ∧
    integer (.integer (.nat 8)) (latin1 "-0") =
      .failure (.newFatal (latin1 "-0") (.numeral .invalidDigit) []) (latin1 "-0") := by
  have htext : (Text.ofString "-170141183460469231731687303715884105728é").size < 2 ^ 64 := by
    decide
  have hbytes : (latin1 "-0").size < 2 ^ 64 := by decide
  obtain ⟨-, hprint⟩ := integer_reads_decimal (.int 128)
    (Text.ofString "-170141183460469231731687303715884105728é") htext
  obtain ⟨⟨r, -, -, hminus⟩, -⟩ := integer_reads_decimal (.nat 8) (latin1 "-0") hbytes
  rw [Slice.chars_eq] at hminus
  refine ⟨htext, ?_, hbytes, hminus⟩
  obtain ⟨r, hr, -, hrest⟩ := hprint (-170141183460469231731687303715884105728) ['é'] (by decide)
    (by decide) (by decide) (Text.chars_eq _)
  have hé : r = .ofString "é" := Text.ext ((Text.chars_eq r).symm.trans hrest)
  rw [hr, hé]

end Parser

end ParserAlgebra
