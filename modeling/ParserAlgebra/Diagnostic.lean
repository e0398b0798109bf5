import ParserAlgebra.Numeral

/-!
# Diagnostics

What a parser reports when it fails is up to the error type.  `Diagnostic` lists what the library
asks of one: how errors are raised at a place, where they point, how two of them are merged, and
which of them are fatal.  A fatal error ends every search for another way to read the input.

* `Cause` — the reason behind a fatal error.
* `Diagnostic` — the operations on errors.
* `Seed` — an error without a place, as a client function returns it; `Rejection` is the library's
  own kind of seed.
-/

set_option autoImplicit false

namespace ParserAlgebra

/-- The reason behind a fatal error. -/
inductive Cause where
  /-- A sign promised a number, and no digits follow. -/
  | noDigitsAfterSign
  /-- A literal denotes no number of its type. -/
  | numeral (error : NumeralError)
  /-- A client's own reason. -/
  | custom (text : String)
deriving DecidableEq, Repr

def Cause.message : Cause → String
  | noDigitsAfterSign => "no digits after '-'"
  | numeral e => e.message
  | custom t => t

/-- The operations of an error type `ε` over the input `ι`. -/
class Diagnostic (ε : Type) (ι : outParam Type) where
  /-- Something was expected at a place. -/
  expected : ι → String → ε
  /-- The input cannot be read at all, for a reason that was found at a place. -/
  fatal : ι → Cause → ε
  /-- The place that an error points at. -/
  position : ε → ι
  isFatal : ε → Bool
  /-- One error for two alternatives that failed, in the order in which they were tried. -/
  merge : ε → ε → ε
  /-- The input ended too early. -/
  needMoreInput : ι → ε := fun s => expected s "more input"
  /-- The input goes on where it should end. -/
  expectedEnd : ι → ε := fun s => expected s "end of input"

namespace Diagnostic

variable {ε ι : Type} [Diagnostic ε ι]

/-- An error at the same place that expects what the descriptor says. -/
def relabel (descriptor : String) (e : ε) : ε := expected (position e) descriptor

/-- A fatal error at the same place. -/
def escalate (cause : Cause) (e : ε) : ε := fatal (position e) cause

/-- The error, merged with one that expects something else at the same place. -/
def alsoExpected (descriptor : String) (e : ε) : ε := merge e (relabel descriptor e)

end Diagnostic

/-- Values of `ρ` that become errors of `ε` once a place is known. -/
class Seed (ρ ε : Type) (ι : outParam Type) where
  /-- The error, raised at a place. -/
  raise : ι → ρ → ε

/-- Why a client function refuses a value. -/
inductive Rejection where
  | needMoreInput
  | expectedEnd
  | expected (descriptor : String)
  | fatal (cause : Cause)
deriving DecidableEq, Repr

/-- The error for a rejection, raised at a place. -/
def Rejection.raise {ε ι : Type} [Diagnostic ε ι] (s : ι) : Rejection → ε
  | needMoreInput => Diagnostic.needMoreInput s
  | expectedEnd => Diagnostic.expectedEnd s
  | expected d => Diagnostic.expected s d
  | fatal c => Diagnostic.fatal s c

instance {ε ι : Type} [Diagnostic ε ι] : Seed Rejection ε ι := ⟨Rejection.raise⟩

end ParserAlgebra
