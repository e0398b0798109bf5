/-!
# Symbols and their classes

Input is made of *symbols*: characters, bytes or ASCII characters.  Whatever it is stored as, a
symbol stands for one character, and two symbols of one kind that stand for the same character
are equal.

* `Symbol` — what every kind of symbol provides.
* `Ascii` — a character below 128, and `Symbol.ascii?`, which finds it.
* `CharClass` — the five character classes.  They are ASCII only, so a symbol outside ASCII is
  in none of them (`CharClass.not_contains_of_ascii?`).
-/

set_option autoImplicit false

namespace ParserAlgebra

/-- A kind of symbol.  `toChar` reads a symbol as the character it stands for. -/
class Symbol (σ : Type) where
  toChar : σ → Char
  toChar_inj : ∀ {x y : σ}, toChar x = toChar y → x = y

/-- An ASCII character, given by its code. -/
structure Ascii where
  code : Nat
  code_lt : code < 128
deriving DecidableEq, Repr

namespace Ascii

/-- Is `code` between the codes of two characters, both included? -/
def between (a : Ascii) (lo hi : Char) : Bool :=
  lo.toNat ≤ a.code && a.code ≤ hi.toNat

def isAlpha (a : Ascii) : Bool := a.between 'a' 'z' || a.between 'A' 'Z'

def isDigit (a : Ascii) : Bool := a.between '0' '9'

def isHexDigit (a : Ascii) : Bool := a.isDigit || a.between 'a' 'f' || a.between 'A' 'F'

/-- Space, tab, line feed, form feed and carriage return.  The vertical tab is not one. -/
def isWhitespace (a : Ascii) : Bool :=
  a.code == 32 || a.code == 9 || a.code == 10 || a.code == 12 || a.code == 13

theorem isValidChar (a : Ascii) : a.code.isValidChar := by
  have := a.code_lt
  left
  omega

def toChar (a : Ascii) : Char := Char.ofNatAux a.code a.isValidChar

theorem toNat_toChar (a : Ascii) : a.toChar.toNat = a.code := rfl

/-- The ASCII character that a character is, if it is one. -/
def ofChar? (c : Char) : Option Ascii :=
  if h : c.toNat < 128 then some ⟨c.toNat, h⟩ else none

theorem ofChar?_toChar (a : Ascii) : ofChar? a.toChar = some a := by
  simp [ofChar?, toNat_toChar, a.code_lt]

end Ascii

instance : Symbol Char where
  toChar c := c
  toChar_inj h := h

instance : Symbol Ascii where
  toChar := Ascii.toChar
  toChar_inj {x y} h := by
    have := Ascii.ofChar?_toChar x
    rw [h, Ascii.ofChar?_toChar] at this
    exact (Option.some.inj this).symm

/-- A byte stands for the character of that code, so the first 256 characters are covered. -/
def charOfByte (b : UInt8) : Char :=
  Char.ofNatAux b.toNat (by have := b.toNat_lt; left; omega)

theorem toNat_charOfByte (b : UInt8) : (charOfByte b).toNat = b.toNat := rfl

instance : Symbol UInt8 where
  toChar := charOfByte
  toChar_inj {x y} h := by
    have := congrArg Char.toNat h
    rw [toNat_charOfByte, toNat_charOfByte] at this
    exact UInt8.toNat_inj.mp this

/-- The ASCII character that a symbol stands for, if it is one. -/
def Symbol.ascii? {σ : Type} [Symbol σ] (x : σ) : Option Ascii :=
  Ascii.ofChar? (Symbol.toChar x)

/-- The text that a list of symbols stands for. -/
def Symbol.textOf {σ : Type} [Symbol σ] (xs : List σ) : String :=
  String.ofList (xs.map Symbol.toChar)

/-- Does the symbol stand for one of the characters? -/
def Symbol.isIn {σ : Type} [Symbol σ] (cs : List Char) (x : σ) : Bool :=
  cs.contains (Symbol.toChar x)

/-- Does the symbol stand for a character from `lo` to `hi`, both included? -/
def Symbol.isBetween {σ : Type} [Symbol σ] (lo hi : Char) (x : σ) : Bool :=
  decide (lo ≤ Symbol.toChar x) && decide (Symbol.toChar x ≤ hi)

/-- The classes of characters that the class parsers know. -/
inductive CharClass where
  | alpha
  | digit
  | alphanumeric
  | hexDigit
  | whitespace
deriving DecidableEq, Repr

namespace CharClass

/-- All classes, in the order in which a classification lists them. -/
def all : List CharClass := [alpha, digit, alphanumeric, hexDigit, whitespace]

/-- How a parser that misses a symbol of the class describes it. -/
def descriptor : CharClass → String
  | alpha => "alpha"
  | digit => "digit"
  | alphanumeric => "alphanumeric"
  | hexDigit => "hex digit"
  | whitespace => "whitespace"

def containsAscii : CharClass → Ascii → Bool
  | alpha, a => a.isAlpha
  | digit, a => a.isDigit
  | alphanumeric, a => a.isAlpha || a.isDigit
  | hexDigit, a => a.isHexDigit
  | whitespace, a => a.isWhitespace

variable {σ : Type} [Symbol σ]

/-- Is the symbol an ASCII character of the class? -/
def contains (k : CharClass) (x : σ) : Bool := (Symbol.ascii? x).any k.containsAscii

theorem not_contains_of_ascii? {k : CharClass} {x : σ} (h : Symbol.ascii? x = none) :
    k.contains x = false := by
  simp [contains, h]

theorem contains_congr {τ : Type} [Symbol τ] {k : CharClass} {x : σ} {y : τ}
    (h : Symbol.toChar x = Symbol.toChar y) : k.contains x = k.contains y := by
  simp [contains, Symbol.ascii?, h]

end CharClass

end ParserAlgebra
