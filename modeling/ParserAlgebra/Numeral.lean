/-!
# Reading numerals

The text of an integer is an optional sign followed by digits in some base, and its value must
fit a type of integers.

* `IntegerType` — the integers of a given width, signed or not.
* `IntegerType.read` — the value of a text, or the reason why it has none.  The digits are read
  from the left, so the first fault met is the one reported: a number that has already left the
  range is reported before a later sign or letter.
* `decimalFloat` — the floating-point number nearest to a decimal text.
-/

set_option autoImplicit false

namespace ParserAlgebra

/-- Why a text is not a number of the type asked for. -/
inductive NumeralError where
  | empty
  | invalidDigit
  | tooLarge
  | tooSmall
  | zero
  | notBoolean
deriving DecidableEq, Repr

namespace NumeralError

def message : NumeralError → String
  | empty => "cannot parse integer from empty string"
  | invalidDigit => "invalid digit found in string"
  | tooLarge => "number too large to fit in target type"
  | tooSmall => "number too small to fit in target type"
  | zero => "number would be zero for non-zero type"
  | notBoolean => "provided string was not `true` or `false`"

end NumeralError

/-- The value of a character as a digit in `base`, which is at most 36.  Letters of both cases
stand for the digits from ten on. -/
def digitIn? (base : Nat) (c : Char) : Option Nat :=
  let d :=
    if '0' ≤ c ∧ c ≤ '9' then some (c.toNat - '0'.toNat)
    else if 'a' ≤ c ∧ c ≤ 'z' then some (c.toNat - 'a'.toNat + 10)
    else if 'A' ≤ c ∧ c ≤ 'Z' then some (c.toNat - 'A'.toNat + 10)
    else none
  d.filter (· < base)

/-- The integers of `bits` binary digits, in two's complement if signed. -/
structure IntegerType where
  signed : Bool
  bits : Nat
deriving DecidableEq, Repr

namespace IntegerType

def int (bits : Nat) : IntegerType := ⟨true, bits⟩

def nat (bits : Nat) : IntegerType := ⟨false, bits⟩

def largest (t : IntegerType) : Int :=
  if t.signed then Int.pow 2 (t.bits - 1) - 1 else Int.pow 2 t.bits - 1

def smallest (t : IntegerType) : Int :=
  if t.signed then -Int.pow 2 (t.bits - 1) else 0

/-- Reads digits after `acc`, moving away from zero in the direction of the sign. -/
def readDigits (t : IntegerType) (base : Nat) (negative : Bool) :
    Int → List Char → Except NumeralError Int
  | acc, [] => .ok acc
  | acc, c :: cs =>
    match digitIn? base c with
    | none => .error .invalidDigit
    | some d =>
      if negative then
        let n := acc * base - d
        if n < t.smallest then .error .tooSmall else readDigits t base negative n cs
      else
        let n := acc * base + d
        if t.largest < n then .error .tooLarge else readDigits t base negative n cs

/-- The value of a text in `base`.  A sign alone is no number, and `-` is a sign only for a signed
type. -/
def readIn (t : IntegerType) (base : Nat) : List Char → Except NumeralError Int
  | [] => .error .empty
  | [c] => if c = '+' ∨ c = '-' then .error .invalidDigit else t.readDigits base false 0 [c]
  | '+' :: cs => t.readDigits base false 0 cs
  | '-' :: cs =>
    if t.signed then t.readDigits base true 0 cs else .error .invalidDigit
  | cs => t.readDigits base false 0 cs

/-- The value of a decimal text. -/
def read (t : IntegerType) (cs : List Char) : Except NumeralError Int := t.readIn 10 cs

end IntegerType

/-- What an integer literal is converted to. -/
inductive LiteralType where
  | integer (t : IntegerType)
  /-- A type without zero. -/
  | nonzero (t : IntegerType)
  /-- The truth values, which no literal denotes. -/
  | boolean
deriving DecidableEq, Repr

/-- The value of a text as a literal of the type. -/
def LiteralType.read : LiteralType → List Char → Except NumeralError Int
  | integer t, cs => t.read cs
  | nonzero t, cs =>
    match t.read cs with
    | .ok 0 => .error .zero
    | r => r
  | boolean, cs =>
    if cs = "true".toList then .ok 1
    else if cs = "false".toList then .ok 0
    else .error .notBoolean

/-- The number written by decimal digits, whatever stands between them. -/
def digitsValue (cs : List Char) : Nat :=
  cs.foldl (fun n c => match digitIn? 10 c with
    | some d => 10 * n + d
    | none => n) 0

/-- The floating-point number nearest to a text of the form `-?D+(.D+)?`.  A zero keeps its sign,
and a number beyond the range becomes infinite. -/
def decimalFloat (cs : List Char) : Float :=
  let negative := cs.head? == some '-'
  let fraction := (cs.dropWhile (· != '.')).drop 1
  let magnitude := Float.ofScientific (digitsValue cs) true fraction.length
  if negative then -magnitude else magnitude

end ParserAlgebra
