import ParserAlgebra.Span
import ParserAlgebra.ParseError
import ParserAlgebra.Combinator.Transform

/-!
# Matching symbols and tokens

Parsers that accept one symbol, or a fixed run of symbols.  The literal that is looked for may be
of another kind than the input: symbols are compared by the characters that they stand for.

Every failure points at the input itself and is anchored there.
-/

set_option autoImplicit false

namespace ParserAlgebra

/-- Do two symbols, of whatever kinds, stand for the same character? -/
def Symbol.same {σ τ : Type} [Symbol σ] [Symbol τ] (x : σ) (y : τ) : Bool :=
  Symbol.toChar x == Symbol.toChar y

namespace Parser

variable {ι σ κ τ : Type} [Cursor ι σ]

/-- One symbol that passes a test; `descriptor` says what was looked for. -/
def symbolWhere (descriptor : String) (accepts : σ → Bool) : Parser ι (ParseError ι) σ := fun s =>
  match Cursor.next? s with
  | some (x, t) =>
    if accepts x then .success x t else .failure (Diagnostic.expected s descriptor) s
  | none => .failure (Diagnostic.expected s descriptor) s

/-- One symbol that passes a client's test. -/
def satisfy (accepts : σ → Bool) : Parser ι (ParseError ι) σ := symbolWhere "Satisfy" accepts

/-- Any one symbol. -/
def anySymbol : Parser ι (ParseError ι) σ := fun s =>
  match Cursor.next? s with
  | some (x, t) => .success x t
  | none => .failure (Diagnostic.needMoreInput s) s

variable [Symbol σ] [Symbol τ]

/-- One given symbol. -/
def char (c : τ) : Parser ι (ParseError ι) σ :=
  symbolWhere s!"Char({Symbol.textOf [c]})" fun x => Symbol.same x c

/-- One symbol of the given ones. -/
def oneOf [Cursor κ τ] (set : κ) : Parser ι (ParseError ι) σ :=
  symbolWhere s!"OneOf({Cursor.text set})" fun x => (Cursor.toList set).any (Symbol.same x)

/-- One symbol that is none of the given ones.  At the end of the input there is no such symbol. -/
def noneOf [Cursor κ τ] (set : κ) : Parser ι (ParseError ι) σ :=
  symbolWhere s!"NoneOf({Cursor.text set})" fun x => (Cursor.toList set).all (!Symbol.same x ·)

/-- The input behind a run of symbols, if it begins with them. -/
def behind? : List τ → ι → Option ι
  | [], s => some s
  | y :: ys, s =>
    match Cursor.next? s with
    | some (x, t) => if Symbol.same x y then behind? ys t else none
    | none => none

/-- A given run of symbols. -/
def token [Cursor κ τ] (pattern : κ) : Parser ι (ParseError ι) (Span ι) := fun s =>
  match behind? (Cursor.toList pattern) s with
  | some r => .success ⟨s, r⟩ r
  | none => .failure (Diagnostic.expected s s!"Token({Cursor.text pattern})") s

/-- A symbol that stands for `c`, under a name of its own. -/
def named (descriptor : String) (c : Char) : Parser ι (ParseError ι) σ :=
  label descriptor (satisfy fun x => Symbol.toChar x == c)

def lineFeed : Parser ι (ParseError ι) σ := named "LF" '\n'

def carriageReturn : Parser ι (ParseError ι) σ := named "CR" '\r'

def space : Parser ι (ParseError ι) σ := named "space" ' '

def tab : Parser ι (ParseError ι) σ := named "tab" '\t'

end Parser

end ParserAlgebra
