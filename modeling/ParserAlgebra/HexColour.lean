import ParserAlgebra.Blank
import ParserAlgebra.Grammar

/-!
# Hexadecimal colours

A colour is written as `#` and three bytes of two hexadecimal digits each, such as `#2F14DF`.

* `Colour.parse` — the parser of a whole colour.
* `Colour.transcript` — a session that answers each line with the parts of the colour on it, or
  with the place of the error.
-/

set_option autoImplicit false

namespace ParserAlgebra

/-- A colour by its parts. -/
structure Colour where
  red : UInt8
  green : UInt8
  blue : UInt8
deriving DecidableEq, Repr

namespace Colour

/-- The byte that two hexadecimal digits denote. -/
def readByte (digits : Span Text) : Except Rejection UInt8 :=
  match (IntegerType.nat 8).readIn 16 digits.toList with
  | .ok n => .ok n.toNat.toUInt8
  | .error e => .error (.fatal (.numeral e))

def byte : Parser Text (ParseError Text) UInt8 :=
  .tryMap readByte (Parser.takeWhileBetween 2 2 CharClass.hexDigit.contains)

/-- The colour whose parts are the first three bytes. -/
def ofBytes (bs : List UInt8) : Colour := ⟨bs.getD 0 0, bs.getD 1 0, bs.getD 2 0⟩

/-- A colour, and nothing after it. -/
def parse : Parser Text (ParseError Text) Colour :=
  .complete (.map ofBytes (.seqRight (Parser.char '#') (.times byte 3)))

def display (c : Colour) : String := s!"red: {c.red}, green: {c.green}, blue: {c.blue}"

/-- What a session says about a line that is not blank. -/
def describe (line : Text) : String :=
  match parse line with
  | .success c _ => c.display
  | .failure e _ => e.displayAt line

def prompt : String := "> "

def greeting : String := "Enter 'q', 'quit', or 'exit' to exit.\n" ++ prompt

/-- The lines that end a session. -/
def farewells : List String := ["q", "quit", "exit"]

/-- What a session writes after a line, unless the line ends it. -/
def reply? (line : List Char) : Option String :=
  let line := trimBlank line
  if farewells.contains (String.ofList line) then none
  else if line.isEmpty then some prompt
  else some (describe (.ofList line) ++ "\n" ++ prompt)

/-- What a session writes after its greeting, up to the line that ends it. -/
def replies : List (List Char) → String
  | [] => ""
  | l :: ls =>
    match reply? l with
    | none => ""
    | some r => r ++ replies ls

/-- All that a session writes, given all that it reads. -/
def transcript (input : String) : String := greeting ++ replies (linesOf input.toList)

end Colour

end ParserAlgebra
