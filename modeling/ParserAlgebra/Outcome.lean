import ParserAlgebra.Cursor.Basic

/-!
# Outcomes

Running a parser on some input gives an *outcome*: a value and the input that remains, or an error
and the input that the failure is anchored at.

* `Outcome.consumed` — how much a success took from the input it was given.
* `Outcome.extract` — the result and the input apart, and `Outcome.ofExtract`, which joins them.
-/

set_option autoImplicit false

namespace ParserAlgebra

/-- What a parser over `ι` with errors `ε` answers. -/
inductive Outcome (ι ε α : Type) where
  /-- A value, and the input that remains. -/
  | success (value : α) (rest : ι)
  /-- An error, and the input at which the failure is anchored. -/
  | failure (error : ε) (origin : ι)
deriving Repr, BEq

/-- A parser is a function from input to outcome. -/
abbrev Parser (ι ε α : Type) : Type := ι → Outcome ι ε α

namespace Outcome

variable {ι ε α β : Type}

/-- The input that goes with an outcome: what remains, or the anchor of the failure. -/
def remaining : Outcome ι ε α → ι
  | success _ r => r
  | failure _ o => o

def value? : Outcome ι ε α → Option α
  | success a _ => some a
  | failure _ _ => none

def isSuccess (o : Outcome ι ε α) : Bool := o.value?.isSome

/-- How much shorter the remaining input is than `whole`.  A failure consumes nothing. -/
def consumed {σ : Type} [Cursor ι σ] (whole : ι) : Outcome ι ε α → Nat
  | success _ r => Cursor.length whole - Cursor.length r
  | failure _ _ => 0

def map (f : α → β) : Outcome ι ε α → Outcome ι ε β
  | success a r => success (f a) r
  | failure e o => failure e o

/-- The outcome as a result beside its input. -/
def extract : Outcome ι ε α → Except ε α × ι
  | success a r => (.ok a, r)
  | failure e o => (.error e, o)

/-- The outcome of a result beside its input. -/
def ofExtract : Except ε α × ι → Outcome ι ε α
  | (.ok a, r) => success a r
  | (.error e, o) => failure e o

/-- The outcome at `s` of steps that give a value and the rest, or an error. -/
def ofExcept (s : ι) : Except ε (α × ι) → Outcome ι ε α
  | .ok (a, r) => success a r
  | .error e => failure e s

theorem ofExcept_eq_success_iff {s r : ι} {x : Except ε (α × ι)} {a : α} :
    ofExcept s x = success a r ↔ x = .ok (a, r) := by
  cases x with
  | error e => simp [ofExcept]
  | ok p => simp [ofExcept, Prod.ext_iff]

theorem ofExcept_eq_failure_iff {s o : ι} {x : Except ε (α × ι)} {e : ε} :
    ofExcept s x = failure e o ↔ x = .error e ∧ s = o := by
  cases x with
  | error f => simp [ofExcept]
  | ok p => simp [ofExcept]

end Outcome

end ParserAlgebra
