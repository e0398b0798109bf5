import ParserAlgebra.Proofs.Literals

/-!
# Number literals

A number takes as much of its input as can be read as a number: the point behind an integer belongs
to it only if a digit follows.  It fails on the same inputs as an integer literal, and in the same
way, whatever the size of what is written there.

* `Outcome.fault?` — where an outcome fails, and how badly.
* `Parser.number_of_beginsNumber`, `Parser.number_of_danglingSign`, `Parser.number_of_neither` — the
  three ways a number can turn out.
* `Parser.number_reads_longest` — numbers, and what they have in common with integer literals.
-/

set_option autoImplicit false

namespace ParserAlgebra

open Cursor (chars Suffix)
open Decimal

/-- The input that a failure is anchored at, the position of its error, and whether it is fatal. -/
def Outcome.fault? {ι α : Type} : Outcome ι (ParseError ι) α → Option (ι × ι × Bool)
  | .success _ _ => none
  | .failure e o => some (o, e.position, e.isFatal)

namespace Parser

variable {ι σ : Type} [Cursor ι σ] [Symbol σ] {s : ι}

section Cases

variable (hs : Cursor.length s < 2 ^ 64)

include hs

theorem number_eq :
    number s =
      if digits (chars s) = [] then
        if negative (chars s) then
          .failure (.newFatal (Cursor.tail s) .noDigitsAfterSign ["digit"]) s
        else .failure (.new s ["number"]) s
      else .success (decimalFloat ((chars s).take (numberLength (chars s))))
        (Cursor.advance (numberLength (chars s)) s).2 := by
  rw [number, convert_literal _ _ _ hs]
  rfl

theorem number_of_beginsNumber (h : BeginsNumber (chars s)) :
    number s = .success (decimalFloat ((chars s).take (numberLength (chars s))))
      (Cursor.advance (numberLength (chars s)) s).2 := by
  rw [number_eq hs, if_neg (beginsNumber_iff.1 h)]

theorem number_of_danglingSign (h : DanglingSign (chars s)) :
    number s = .failure (.newFatal (Cursor.tail s) .noDigitsAfterSign ["digit"]) s := by
  obtain ⟨hdigits, hneg⟩ := danglingSign_iff.1 h
  rw [number_eq hs, if_pos hdigits, if_pos hneg]

theorem number_of_neither (hnone : ¬ BeginsNumber (chars s)) (hsign : ¬ DanglingSign (chars s)) :
    number s = .failure (.new s ["number"]) s := by
  have hdigits : digits (chars s) = [] := by
    by_contra h
    exact hnone (beginsNumber_iff.2 h)
  have hneg : ¬ negative (chars s) = true := fun h => hsign (danglingSign_iff.2 ⟨hdigits, h⟩)
  rw [number_eq hs, if_pos hdigits, if_neg hneg]

theorem number_succeeds_iff : (∃ a r, number s = .success a r) ↔ BeginsNumber (chars s) := by
  constructor
  · rintro ⟨a, r, h⟩
    by_contra hnone
    by_cases hsign : DanglingSign (chars s)
    · rw [number_of_danglingSign hs hsign] at h
      cases h
    · rw [number_of_neither hs hnone hsign] at h
      cases h
  · intro h
    exact ⟨_, _, number_of_beginsNumber hs h⟩

theorem number_fatal_iff :
    (∃ e o, number s = .failure e o ∧ e.isFatal = true) ↔ DanglingSign (chars s) := by
  constructor
  · rintro ⟨e, o, h, hfatal⟩
    by_contra hsign
    by_cases hbegins : BeginsNumber (chars s)
    · rw [number_of_beginsNumber hs hbegins] at h
      cases h
    · rw [number_of_neither hs hbegins hsign] at h
      cases h
      cases hfatal
  · intro h
    exact ⟨_, _, number_of_danglingSign hs h, rfl⟩

/-- What a number takes is the longest number at the front of the input. -/
theorem number_takes {a : Float} {r : ι} (h : number s = .success a r) :
    Suffix r s ∧ ∃ text, TakesNumber (chars s) text (chars r) ∧ a = decimalFloat text := by
  have hbegins := (number_succeeds_iff hs).1 ⟨a, r, h⟩
  rw [number_of_beginsNumber hs hbegins] at h
  cases h
  refine ⟨Cursor.suffix_advance _ _, (chars s).take (numberLength (chars s)), ?_, rfl⟩
  rw [Cursor.chars_advance]
  exact takesNumber_take (beginsNumber_iff.1 hbegins)

/-- A number without a point is an integer literal. -/
theorem literal_integer_of_number {a : Float} {r : ι} (h : number s = .success a r)
    {text : List Char} (htext : chars s = text ++ chars r) (hpoint : '.' ∉ text) :
    literal "integer" false s = .success ⟨s, r⟩ r := by
  have hdigits := beginsNumber_iff.1 ((number_succeeds_iff hs).1 ⟨a, r, h⟩)
  rw [number_eq hs, if_neg hdigits] at h
  cases h
  have htaken : text = (chars s).take (numberLength (chars s)) := by
    rw [Cursor.chars_advance] at htext
    exact List.append_cancel_right (htext.symm.trans (List.take_append_drop _ _).symm)
  have hfraction : fraction (chars s) = [] := by
    by_contra hne
    rw [take_numberLength_of_fraction hne] at htaken
    exact hpoint (by simp [htaken])
  rw [literal_eq _ _ hs, if_neg hdigits, numberLength_of_no_fraction hfraction]
  rfl

theorem fault?_number : (number s).fault? = (literal "integer" false s).fault? := by
  rw [number_eq hs, literal_eq _ _ hs]
  by_cases hdigits : digits (chars s) = []
  · rw [if_pos hdigits, if_pos hdigits]
    by_cases hneg : negative (chars s) = true
    · rw [if_pos hneg, if_pos hneg]
      rfl
    · rw [if_neg hneg, if_neg hneg]
      rfl
  · rw [if_neg hdigits, if_neg hdigits]
    rfl

end Cases

/-- **A number takes the longest number there is.**  It succeeds on input that begins with an
optional minus sign and a digit, and takes the longest text of a number there, whose value it gives.
It is fatal behind a minus sign that no digit follows, and only there; on other input it fails
recoverably.  It fails where an integer literal fails to be found, at the same position and as
badly; and where what it takes has no point, it takes what an integer literal takes. -/
theorem number_reads_longest (s : ι) (hs : Cursor.length s < 2 ^ 64) :
    ((∃ a r, number s = .success a r) ↔ BeginsNumber (chars s)) ∧
    (∀ a r, number s = .success a r → Suffix r s ∧
      ∃ text, TakesNumber (chars s) text (chars r) ∧ a = decimalFloat text ∧
        ('.' ∉ text → literal "integer" false s = .success ⟨s, r⟩ r)) ∧
    ((∃ e o, number s = .failure e o ∧ e.isFatal = true) ↔ DanglingSign (chars s)) ∧
    (DanglingSign (chars s) →
      number s = .failure (.newFatal (Cursor.tail s) .noDigitsAfterSign ["digit"]) s) ∧
    (¬ BeginsNumber (chars s) → ¬ DanglingSign (chars s) →
      number s = .failure (.new s ["number"]) s) ∧
    (number s).fault? = (literal "integer" false s).fault? := by
  refine ⟨number_succeeds_iff hs, fun a r h => ?_, number_fatal_iff hs, number_of_danglingSign hs,
    number_of_neither hs, fault?_number hs⟩
  obtain ⟨hsuffix, text, htakes, hvalue⟩ := number_takes hs h
  refine ⟨hsuffix, text, htakes, hvalue, fun hpoint => ?_⟩
  exact literal_integer_of_number hs h htakes.eq_append hpoint

/-- Of `-1.5.2e3` the second point and what follows are left.  In `42.x` the point is left, and
behind the sign of the bytes `-x` there is no digit. -/
theorem number_reads_longest_points :
    ((Text.ofString "-1.5.2e3").size < 2 ^ 64 ∧ (Text.ofString "42.x").size < 2 ^ 64 ∧
      (latin1 "-x").size < 2 ^ 64) ∧
    number (Text.ofString "-1.5.2e3") =
      .success (decimalFloat "-1.5".toList) (.ofString ".2e3") ∧
    TakesNumber "-1.5.2e3".toList "-1.5".toList ".2e3".toList ∧
    literal "integer" false (Text.ofString "42.x") =
      .success ⟨.ofString "42.x", .ofString ".x"⟩ (.ofString ".x") ∧
    number (latin1 "-x") =
      .failure (.newFatal (latin1 "x") .noDigitsAfterSign ["digit"]) (latin1 "-x") := by
  have htwo : (Text.ofString "-1.5.2e3").size < 2 ^ 64 := by decide
  have hone : (Text.ofString "42.x").size < 2 ^ 64 := by decide
  have hbytes : (latin1 "-x").size < 2 ^ 64 := by decide
  have hnumber := number_of_beginsNumber (s := Text.ofString "-1.5.2e3") htwo
    ⟨['-'], '1', ".5.2e3".toList, .minus, by decide, Text.chars_eq _⟩
  have hinteger := number_of_beginsNumber (s := Text.ofString "42.x") hone
    ⟨[], '4', "2.x".toList, .none, by decide, Text.chars_eq _⟩
  have hsign : DanglingSign (chars (latin1 "-x")) := by
    rw [Slice.chars_eq]
    exact ⟨['x'], rfl, by decide⟩
  rw [Text.chars_eq] at hnumber hinteger
  obtain ⟨-, text, htakes, -⟩ := (number_reads_longest _ htwo).2.1 _ _ hnumber
  obtain ⟨-, digits, hdigits, -, hliteral⟩ := (number_reads_longest _ hone).2.1 _ _ hinteger
  rw [Text.chars_eq, Text.chars_eq] at htakes hdigits
  have htext : "-1.5".toList = text := List.append_cancel_right htakes.eq_append
  have hfortyTwo : "42".toList = digits := List.append_cancel_right hdigits.eq_append
  cases htext
  cases hfortyTwo
  exact ⟨⟨htwo, hone, hbytes⟩, hnumber, htakes, hliteral (by decide),
    (number_reads_longest _ hbytes).2.2.2.1 hsign⟩

end Parser

end ParserAlgebra
