import ParserAlgebra.ParseError

/-!
# Traces

A second error type, which records every call made to it: the text of a trace shows in which order
the errors were raised and how they were merged.

* `Trace.ofParseError` — a parse error as one entry of a trace.
-/

set_option autoImplicit false

namespace ParserAlgebra

/-- A record of how an error came about. -/
structure Trace (ι : Type) where
  position : ι
  log : String
  fatal : Bool
deriving Repr

namespace Trace

variable {ι σ : Type} [Cursor ι σ]

/-- An entry together with the length that was left where it was made. -/
def entry (s : ι) (text : String) (fatal : Bool) : Trace ι :=
  ⟨s, s!"{text}@{Cursor.length s}", fatal⟩

instance : Diagnostic (Trace ι) ι where
  expected s d := entry s s!"expected:{d}" false
  fatal s c := entry s s!"fatal:{c.message}" true
  position := position
  isFatal := fatal
  merge e f := ⟨e.position, s!"({e.log} | {f.log})", e.fatal || f.fatal⟩
  needMoreInput s := entry s "more" false
  expectedEnd s := entry s "eof" false

/-- How far the place of a trace is from the place `whole`. -/
def offset (whole : ι) (e : Trace ι) : Nat :=
  Cursor.length whole - Cursor.length e.position

/-- A parse error, entered with its text. -/
def ofParseError (e : ParseError ι) : Trace ι :=
  entry e.position s!"pe:{e.display}" e.isFatal

/-- Traces are compared by place, record and severity. -/
instance [BEq ι] : BEq (Trace ι) :=
  ⟨fun e f => e.position == f.position && e.log == f.log && e.fatal == f.fatal⟩

end Trace

end ParserAlgebra
