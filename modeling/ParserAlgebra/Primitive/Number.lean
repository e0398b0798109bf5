import ParserAlgebra.Primitive.Run
import ParserAlgebra.Numeral

/-!
# Numbers

An integer literal is an optional `-` and at least one ASCII digit.  A number may go on with a
point and at least one more digit; a point that no digit follows is not part of it.

A `-` without a digit and a literal outside its type are fatal, since nothing but a number can have
been meant.
-/

set_option autoImplicit false

namespace ParserAlgebra.Parser

variable {ι σ α : Type} [Cursor ι σ] [Symbol σ]

/-- Does the input begin with a symbol for `c`? -/
def startsWith (c : Char) (s : ι) : Bool := (Cursor.peek? s).any fun x => Symbol.toChar x == c

/-- The input behind a point and at least one digit, if the input goes on so. -/
def behindFraction (s : ι) : ι :=
  if startsWith '.' s then
    match ofClass1 .digit (Cursor.tail s) with
    | .success _ r => r
    | .failure _ _ => s
  else s

/-- The span of a literal, with a fraction where one is allowed. -/
def literal (descriptor : String) (fraction : Bool) : Parser ι (ParseError ι) (Span ι) := fun s =>
  let signed := startsWith '-' s
  let digits := if signed then Cursor.tail s else s
  match ofClass1 .digit digits with
  | .success _ r =>
    let r := if fraction then behindFraction r else r
    .success ⟨s, r⟩ r
  | .failure e _ =>
    if signed then .failure (ParseError.newFatal e.position .noDigitsAfterSign ["digit"]) s
    else .failure (Diagnostic.expected s descriptor) s

/-- The value of a literal.  A text without a value is a fatal error at the literal. -/
def convert (read : List Char → Except Cause α)
    (lit : Parser ι (ParseError ι) (Span ι)) : Parser ι (ParseError ι) α := fun s =>
  match lit s with
  | .success span r =>
    match read (span.toList.map Symbol.toChar) with
    | .ok a => .success a r
    | .error cause => .failure (Diagnostic.fatal s cause) s
  | .failure e o => .failure e o

/-- An integer literal, read as a client's own kind of value. -/
def integerAs (read : List Char → Except Cause α) : Parser ι (ParseError ι) α :=
  convert read (literal "integer" false)

/-- An integer literal of a type. -/
def integer (t : LiteralType) : Parser ι (ParseError ι) Int :=
  integerAs fun cs => (t.read cs).mapError Cause.numeral

/-- A number, as the nearest floating-point number. -/
def number : Parser ι (ParseError ι) Float :=
  convert (fun cs => .ok (decimalFloat cs)) (literal "number" true)

end ParserAlgebra.Parser
