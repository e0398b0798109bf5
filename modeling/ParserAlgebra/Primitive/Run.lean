import ParserAlgebra.Primitive.Match
import ParserAlgebra.Combinator.Choice
import ParserAlgebra.Combinator.Lookahead
import ParserAlgebra.Combinator.Sequence

/-!
# Runs of symbols

Parsers for a number of symbols, for a run of symbols that all pass a test, and for line endings.
Their value is the span of the run.
-/

set_option autoImplicit false

namespace ParserAlgebra.Parser

variable {ι σ : Type} [Cursor ι σ]

/-- The largest count there is, in 64 bits. -/
def maxCount : Nat := Nat.pow 2 64 - 1

/-- Exactly `n` symbols.  If there are fewer, the error points at the end of the input. -/
def take (n : Nat) : Parser ι (ParseError ι) (Span ι) := fun s =>
  match Cursor.advance n s with
  | (k, r) => if k == n then .success ⟨s, r⟩ r else .failure (Diagnostic.needMoreInput r) s

/-- How many of the first `limit` symbols pass the test before one fails it, and what follows. -/
def takeRun (accepts : σ → Bool) : Nat → ι → Nat × ι
  | 0, s => (0, s)
  | limit + 1, s =>
    match Cursor.next? s with
    | some (x, t) =>
      if accepts x then
        let (k, r) := takeRun accepts limit t
        (k + 1, r)
      else (0, s)
    | none => (0, s)

/-- The longest run of at most `most` symbols that pass the test, if it has `least` of them. -/
def takeWhileBetween (least most : Nat) (accepts : σ → Bool) :
    Parser ι (ParseError ι) (Span ι) := fun s =>
  match takeRun accepts most s with
  | (k, r) =>
    if k < least then .failure (Diagnostic.expected s "TakeWhileMN") s else .success ⟨s, r⟩ r

/-- The longest run of symbols that pass the test. -/
def takeWhile (accepts : σ → Bool) : Parser ι (ParseError ι) (Span ι) :=
  takeWhileBetween 0 maxCount accepts

/-- The longest run of symbols that pass the test, with at least one. -/
def takeWhile1 (accepts : σ → Bool) : Parser ι (ParseError ι) (Span ι) :=
  takeWhileBetween 1 maxCount accepts

variable [Symbol σ]

/-- The longest run of symbols of a class, which may be empty. -/
def ofClass (k : CharClass) : Parser ι (ParseError ι) (Span ι) := takeWhile k.contains

/-- The longest run of symbols of a class, with at least one. -/
def ofClass1 (k : CharClass) : Parser ι (ParseError ι) (Span ι) :=
  label k.descriptor (takeWhile1 k.contains)

/-- A carriage return and a line feed. -/
def crlf : Parser ι (ParseError ι) (Span ι) :=
  label "CRLF" (spanOf (pair carriageReturn lineFeed))

/-- A line feed, with or without a carriage return before it. -/
def newline : Parser ι (ParseError ι) (Span ι) :=
  label "newline" (orElse (spanOf lineFeed) crlf)

end ParserAlgebra.Parser
