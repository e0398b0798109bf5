import ParserAlgebra.Span
import ParserAlgebra.Diagnostic
import ParserAlgebra.Pair

/-!
# Values of any form

A grammar that is only known when the program runs has values of one type, which says of each value
what it is made of.  `Value ι σ κ` holds symbols `σ`, spans of the input `ι`, and constants `κ` of
the grammar's author.

* `Value.toText` — the text that a value has of itself.
* `Value.beq` — equality, which never holds between values of different forms.
* The functions of a grammar's author on such values: `Value.length`, `Value.swap`, the checks and
  the conversions.
-/

set_option autoImplicit false

namespace ParserAlgebra

inductive Value (ι σ κ : Type) where
  | symbol (x : σ)
  | span (s : Span ι)
  | integer (n : Int)
  | float (x : Float)
  | unit
  | none
  | some (v : Value ι σ κ)
  | list (vs : List (Value ι σ κ))
  | pair (left right : Value ι σ κ)
  | tuple (vs : List (Value ι σ κ))
  | text (t : String)
  | const (k : κ)
  /-- The value that a type has when nothing was read. -/
  | default

namespace Value

variable {ι σ κ : Type} [Cursor ι σ]

instance : Inhabited (Value ι σ κ) := ⟨default⟩

section Equality

variable [BEq σ] [BEq κ]

mutual

/-- Spans are compared by their symbols, and floating-point numbers as such, so `0` equals `-0`. -/
def beq : Value ι σ κ → Value ι σ κ → Bool
  | symbol x, symbol y => x == y
  | span s, span t => s == t
  | integer m, integer n => m == n
  | float x, float y => x == y
  | unit, unit => true
  | none, none => true
  | some v, some w => beq v w
  | list vs, list ws => beqAll vs ws
  | pair a b, pair c d => beq a c && beq b d
  | tuple vs, tuple ws => beqAll vs ws
  | text s, text t => s == t
  | const j, const k => j == k
  | default, default => true
  | _, _ => false

/-- Equality of lists of values. -/
def beqAll : List (Value ι σ κ) → List (Value ι σ κ) → Bool
  | [], [] => true
  | v :: vs, w :: ws => beq v w && beqAll vs ws
  | _, _ => false

end

instance : BEq (Value ι σ κ) := ⟨beq⟩

end Equality

variable [Symbol σ]

/-- The text of a symbol, a span, an integer or a text.  Other values have none. -/
def toText : Value ι σ κ → String
  | symbol x => Symbol.textOf [x]
  | span s => s.text
  | integer n => toString n
  | text t => t
  | _ => ""

/-- The length of a span in storage units, the number of values in a list or tuple, and otherwise
the number of characters of the text. -/
def length : Value ι σ κ → Nat
  | span s => s.length
  | list vs => vs.length
  | tuple vs => vs.length
  | v => v.toText.length

/-- The number of values in a list, and otherwise the number of characters of the text. -/
def size : Value ι σ κ → Nat
  | list vs => vs.length
  | v => v.toText.length

/-- The sides of a pair exchanged. -/
def swap : Value ι σ κ → Value ι σ κ
  | pair a b => pair b a
  | v => v

/-- A number from zero up, if the value is one. -/
def nat? : Value ι σ κ → Option Nat
  | integer n => if n < 0 then Option.none else Option.some n.toNat
  | _ => Option.none

/-- Does the text end in an even digit? -/
def endsEven (v : Value ι σ κ) : Bool :=
  v.toText.toList.getLast?.any fun c => "02468".toList.contains c

/-- The integer that the text denotes in `base`. -/
def readInteger (base : Nat) (t : IntegerType) (v : Value ι σ κ) :
    Except Rejection (Value ι σ κ) :=
  match t.readIn base v.toText.toList with
  | .ok n => .ok (integer n)
  | .error e => .error (.fatal (.numeral e))

/-- The constant that a table gives for the text. -/
def keyword (table : List (String × κ)) (otherwise : Rejection) (v : Value ι σ κ) :
    Except Rejection (Value ι σ κ) :=
  match table.lookup v.toText with
  | Option.some k => .ok (const k)
  | Option.none => .error otherwise

end Value

end ParserAlgebra
