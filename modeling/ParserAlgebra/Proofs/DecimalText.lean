import Mathlib.Data.List.TakeWhile

/-!
# Decimal texts

A text may begin with an integer: an optional minus sign and digits, as many as there are.  It may
begin with a number, which can go on with a point and more digits.  What it begins with is told here
by the characters alone.

* `Decimal.negative`, `Decimal.digits`, `Decimal.value` — the integer at the front of a text.
* `Decimal.IsNumber` — the texts of numbers.
* `Decimal.TakesNumber` — the longest text of a number at the front of a text, and what is left.
  There is one where there are digits (`Decimal.takesNumber_take`), and these there are behind an
  optional sign (`Decimal.beginsNumber_iff`).
* `Decimal.DanglingSign` — a sign without digits.
* `Decimal.digits_print`, `Decimal.value_print` — an integer that is printed at the front of a text.
-/

set_option autoImplicit false

namespace ParserAlgebra.Decimal

/-! ## The integer at the front of a text -/

/-- Does the text begin with a minus sign? -/
def negative (cs : List Char) : Bool := cs.head? == some '-'

def sign (cs : List Char) : List Char := if negative cs then ['-'] else []

/-- All the digits behind an optional minus sign. -/
def digits (cs : List Char) : List Char :=
  (if negative cs then cs.tail else cs).takeWhile Char.isDigit

/-- The value of these digits, with the sign. -/
def value (cs : List Char) : Int :=
  if negative cs then -(Nat.ofDigitChars 10 (digits cs) 0 : Int)
  else (Nat.ofDigitChars 10 (digits cs) 0 : Int)

/-- How many characters the sign and the digits are. -/
def integerLength (cs : List Char) : Nat := (if negative cs then 1 else 0) + (digits cs).length

/-- The text does not begin with a digit. -/
def NoDigitHead (cs : List Char) : Prop := ∀ c ∈ cs.head?, c.isDigit = false

/-- The text begins with a minus sign that no digit follows. -/
def DanglingSign (cs : List Char) : Prop := ∃ rest, cs = '-' :: rest ∧ NoDigitHead rest

theorem takeWhile_eq_nil_iff {cs : List Char} :
    cs.takeWhile Char.isDigit = [] ↔ NoDigitHead cs := by
  cases cs with
  | nil => simp [NoDigitHead]
  | cons c cs => simp [NoDigitHead, List.takeWhile_cons]

instance (cs : List Char) : Decidable (NoDigitHead cs) :=
  decidable_of_iff (cs.takeWhile Char.isDigit = []) takeWhile_eq_nil_iff

theorem exists_of_negative {cs : List Char} (h : negative cs = true) : ∃ ds, cs = '-' :: ds := by
  cases cs with
  | nil => cases h
  | cons c ds =>
      have hc : c = '-' := by simpa [negative] using h
      exact ⟨ds, by rw [hc]⟩

theorem danglingSign_iff {cs : List Char} :
    DanglingSign cs ↔ digits cs = [] ∧ negative cs = true := by
  constructor
  · rintro ⟨rest, rfl, hrest⟩
    exact ⟨takeWhile_eq_nil_iff.2 hrest, rfl⟩
  · rintro ⟨hdigits, hneg⟩
    obtain ⟨rest, rfl⟩ := exists_of_negative hneg
    exact ⟨rest, rfl, takeWhile_eq_nil_iff.1 hdigits⟩

/-- The front of a text up to the end of a run is the run. -/
theorem take_takeWhile (cs : List Char) :
    cs.take (cs.takeWhile Char.isDigit).length = cs.takeWhile Char.isDigit :=
  (List.prefix_iff_eq_take.1 (List.takeWhile_prefix Char.isDigit)).symm

theorem take_integerLength (cs : List Char) :
    cs.take (integerLength cs) = sign cs ++ digits cs := by
  unfold integerLength sign digits
  by_cases h : negative cs = true
  · obtain ⟨ds, rfl⟩ := exists_of_negative h
    simp only [if_pos h, List.tail_cons, Nat.add_comm 1, List.take_succ_cons, take_takeWhile,
      List.singleton_append]
  · simp only [if_neg h, Nat.zero_add, take_takeWhile, List.nil_append]

/-! ## Numbers -/

inductive IsSign : List Char → Prop
  | none : IsSign []
  | minus : IsSign ['-']

/-- At least one character, all of them digits. -/
def IsRun (ds : List Char) : Prop := ds ≠ [] ∧ ∀ d ∈ ds, d.isDigit = true

/-- The texts of numbers: an optional sign and digits, and perhaps a point and digits. -/
inductive IsNumber : List Char → Prop
  | integer {cs ds : List Char} (hcs : IsSign cs) (hds : IsRun ds) : IsNumber (cs ++ ds)
  | fraction {cs ds es : List Char} (hcs : IsSign cs) (hds : IsRun ds) (hes : IsRun es) :
      IsNumber (cs ++ (ds ++ '.' :: es))

/-- The text begins with the number, and with no longer one; the rest is left. -/
structure TakesNumber (cs number rest : List Char) : Prop where
  isNumber : IsNumber number
  eq_append : cs = number ++ rest
  longest : ∀ other, IsNumber other → other <+: cs → other.length ≤ number.length

/-- The text begins with a digit, or with a minus sign and a digit. -/
def BeginsNumber (cs : List Char) : Prop :=
  ∃ sg d rest, IsSign sg ∧ d.isDigit = true ∧ cs = sg ++ d :: rest

/-- The digits behind a point at the front of a text. -/
def behindPoint : List Char → List Char
  | '.' :: ds => ds.takeWhile Char.isDigit
  | _ => []

/-- The digits behind a point that directly follows the integer. -/
def fraction (cs : List Char) : List Char := behindPoint (cs.drop (integerLength cs))

/-- How many characters a point and the digits behind it are, if there are any. -/
def fractionLength (ds : List Char) : Nat := if ds = [] then 0 else ds.length + 1

/-- How many characters the integer is, with its fraction if it has one. -/
def numberLength (cs : List Char) : Nat :=
  integerLength cs + fractionLength (fraction cs)

theorem isSign_sign (cs : List Char) : IsSign (sign cs) := by
  unfold sign
  split
  · exact .minus
  · exact .none

theorem isRun_takeWhile {cs : List Char} (h : cs.takeWhile Char.isDigit ≠ []) :
    IsRun (cs.takeWhile Char.isDigit) :=
  ⟨h, fun _ => List.mem_takeWhile_imp⟩

theorem isRun_digits {cs : List Char} (h : digits cs ≠ []) : IsRun (digits cs) :=
  isRun_takeWhile h

/-- A fraction stands behind a point, and is a run. -/
theorem exists_of_fraction {cs : List Char} (h : fraction cs ≠ []) :
    IsRun (fraction cs) ∧ ∃ rest, cs.drop (integerLength cs) = '.' :: (fraction cs ++ rest) := by
  unfold fraction at h ⊢
  generalize cs.drop (integerLength cs) = ds at h ⊢
  unfold behindPoint at h ⊢
  split at h
  · rename_i ds
    refine ⟨isRun_takeWhile h, ds.dropWhile Char.isDigit, ?_⟩
    rw [List.takeWhile_append_dropWhile]
  · exact absurd rfl h

theorem take_numberLength_of_fraction {cs : List Char} (h : fraction cs ≠ []) :
    cs.take (numberLength cs) = sign cs ++ (digits cs ++ '.' :: fraction cs) := by
  obtain ⟨-, rest, hrest⟩ := exists_of_fraction h
  rw [numberLength, fractionLength, if_neg h, List.take_add, take_integerLength, hrest,
    List.take_succ_cons, List.take_left, List.append_assoc]

theorem numberLength_of_no_fraction {cs : List Char} (h : fraction cs = []) :
    numberLength cs = integerLength cs := by
  rw [numberLength, fractionLength, if_pos h, Nat.add_zero]

theorem isNumber_take {cs : List Char} (h : digits cs ≠ []) :
    IsNumber (cs.take (numberLength cs)) := by
  by_cases hfraction : fraction cs = []
  · rw [numberLength_of_no_fraction hfraction, take_integerLength]
    exact .integer (isSign_sign cs) (isRun_digits h)
  · rw [take_numberLength_of_fraction hfraction]
    exact .fraction (isSign_sign cs) (isRun_digits h) (exists_of_fraction hfraction).1

theorem not_isDigit_minus : Char.isDigit '-' = false := by decide

theorem not_isDigit_point : Char.isDigit '.' = false := by decide

section Append

variable {cs ds : List Char} (hcs : IsSign cs) (hds : IsRun ds) (rest : List Char)

include hcs hds

/-- A run does not begin with a minus sign, so the only sign is the one in front of it. -/
theorem negative_append : negative (cs ++ (ds ++ rest)) = !cs.isEmpty := by
  cases hcs with
  | minus => rfl
  | none =>
      obtain ⟨hne, hall⟩ := hds
      cases ds with
      | nil => exact absurd rfl hne
      | cons d ds =>
          have hd := hall d List.mem_cons_self
          have hminus : d ≠ '-' := by
            rintro rfl
            rw [not_isDigit_minus] at hd
            cases hd
          simpa [negative] using hminus

/-- The digits of a sign and a run, whatever follows. -/
theorem digits_append : digits (cs ++ (ds ++ rest)) = ds ++ rest.takeWhile Char.isDigit ∧
    integerLength (cs ++ (ds ++ rest)) =
      cs.length + (ds.length + (rest.takeWhile Char.isDigit).length) := by
  have hrun : (ds ++ rest).takeWhile Char.isDigit = ds ++ rest.takeWhile Char.isDigit :=
    List.takeWhile_append_of_pos hds.2
  cases hcs with
  | none =>
      have hneg : negative (ds ++ rest) = false := negative_append .none hds rest
      simp [integerLength, digits, hneg, hrun]
  | minus =>
      have hneg : negative ('-' :: (ds ++ rest)) = true := rfl
      simp [integerLength, digits, hneg, hrun]

end Append

theorem beginsNumber_iff {cs : List Char} : BeginsNumber cs ↔ digits cs ≠ [] := by
  constructor
  · rintro ⟨sg, d, rest, hsg, hd, rfl⟩ hnone
    have hrun : IsRun [d] := ⟨List.cons_ne_nil _ _, List.forall_mem_singleton.2 hd⟩
    have hdigits := (digits_append hsg hrun rest).1
    rw [List.singleton_append, hnone] at hdigits
    cases hdigits
  · intro h
    have htext := List.take_append_drop (integerLength cs) cs
    obtain ⟨hne, hall⟩ := isRun_digits h
    obtain ⟨d, ds, hds⟩ := List.exists_cons_of_ne_nil hne
    rw [take_integerLength, hds, List.append_assoc] at htext
    exact ⟨sign cs, d, ds ++ cs.drop (integerLength cs), isSign_sign cs, hall d (by simp [hds]),
      htext.symm⟩

/-- No number at the front of a text is longer than the one that is taken. -/
theorem length_le_numberLength {cs other : List Char} (h : IsNumber other) (hcs : other <+: cs) :
    other.length ≤ numberLength cs := by
  obtain ⟨rest, rfl⟩ := hcs
  cases h with
  | @integer cs ds hcs hds =>
      obtain ⟨-, hlen⟩ := digits_append hcs hds rest
      rw [List.append_assoc, numberLength, hlen, List.length_append]
      omega
  | @fraction cs ds es hcs hds hes =>
      -- the point ends the run of digits, so what is behind it is the fraction
      have hpoint : ('.' :: (es ++ rest)).takeWhile Char.isDigit = [] := by
        rw [List.takeWhile_cons_of_neg (by simp [not_isDigit_point])]
      have htext : cs ++ (ds ++ '.' :: es) ++ rest = cs ++ (ds ++ '.' :: (es ++ rest)) := by simp
      obtain ⟨-, hlen⟩ := digits_append hcs hds ('.' :: (es ++ rest))
      rw [hpoint, List.length_nil, Nat.add_zero] at hlen
      have hdrop : (cs ++ (ds ++ '.' :: (es ++ rest))).drop (cs.length + ds.length) =
          '.' :: (es ++ rest) := by
        rw [← List.append_assoc, ← List.length_append, List.drop_left]
      have hfraction : fraction (cs ++ (ds ++ '.' :: (es ++ rest))) =
          es ++ rest.takeWhile Char.isDigit := by
        rw [fraction, hlen, hdrop]
        exact List.takeWhile_append_of_pos hes.2
      have hne : es ++ rest.takeWhile Char.isDigit ≠ [] := by simp [hes.1]
      rw [htext, numberLength, hlen, hfraction, fractionLength, if_neg hne]
      simp only [List.length_append, List.length_cons]
      omega

/-- What is taken of a text with digits is the longest number at its front. -/
theorem takesNumber_take {cs : List Char} (h : digits cs ≠ []) :
    TakesNumber cs (cs.take (numberLength cs)) (cs.drop (numberLength cs)) := by
  refine ⟨isNumber_take h, (List.take_append_drop _ cs).symm, fun other hother hcs => ?_⟩
  have hle := length_le_numberLength hother hcs
  have hlen := hcs.length_le
  rw [List.length_take]
  omega

/-! ## Printed integers -/

theorem toList_toString (n : Int) :
    (toString n).toList = (if n < 0 then ['-'] else []) ++ Nat.toDigits 10 n.natAbs := by
  show n.repr.toList = _
  rw [Int.repr_eq_if]
  by_cases hn : n < 0
  · have habs : (-n).toNat = n.natAbs := by omega
    rw [if_neg (by omega), if_pos hn, habs, Nat.repr_eq_ofList_toDigits]
    simp
  · have habs : n.toNat = n.natAbs := by omega
    rw [if_pos (by omega), if_neg hn, habs, Nat.repr_eq_ofList_toDigits]
    simp

theorem isRun_toDigits (n : Nat) : IsRun (Nat.toDigits 10 n) :=
  ⟨Nat.toDigits_ne_nil, fun _ hd => Nat.isDigit_of_mem_toDigits (by decide) (by decide) hd⟩

theorem isSign_of_int (n : Int) : IsSign (if n < 0 then ['-'] else []) := by
  split
  · exact .minus
  · exact .none

section Printed

variable {rest : List Char} (hrest : NoDigitHead rest) (n : Int)

omit hrest in
theorem negative_print : negative ((toString n).toList ++ rest) = decide (n < 0) := by
  rw [toList_toString, List.append_assoc,
    negative_append (isSign_of_int n) (isRun_toDigits n.natAbs) rest]
  by_cases hn : n < 0
  · simp [hn]
  · simp [hn]

include hrest

theorem digits_print : digits ((toString n).toList ++ rest) = Nat.toDigits 10 n.natAbs ∧
    integerLength ((toString n).toList ++ rest) = (toString n).toList.length := by
  have hstop := takeWhile_eq_nil_iff.2 hrest
  obtain ⟨hdigits, hlen⟩ := digits_append (isSign_of_int n) (isRun_toDigits n.natAbs) rest
  rw [hstop] at hdigits hlen
  rw [toList_toString, List.append_assoc, List.length_append]
  exact ⟨by rw [hdigits, List.append_nil], hlen⟩

theorem value_print : value ((toString n).toList ++ rest) = n := by
  obtain ⟨hdigits, -⟩ := digits_print hrest n
  unfold value
  rw [hdigits, Nat.ofDigitChars_ten_toDigits]
  simp only [negative_print, decide_eq_true_eq]
  split
  · omega
  · omega

end Printed

end ParserAlgebra.Decimal
