import ParserAlgebra.Outcome
import ParserAlgebra.Diagnostic

/-!
# Transforming one parser

Parsers that run one other parser and change what comes out of it: its value, its error, or
whether it is accepted.

Two kinds of failure are told apart throughout.  A parser that only looks at the outcome of its
child hands the child's failure on with the input that it came with; one that decides by itself
anchors every failure at its own input.
-/

set_option autoImplicit false

namespace ParserAlgebra.Parser

variable {ι σ ε ε' ρ α β : Type}

/-- Succeeds with a value and takes nothing. -/
def succeed (a : α) : Parser ι ε α := fun s => .success a s

/-- Fails, expecting what the descriptor says. -/
def fail [Diagnostic ε ι] (descriptor : String) : Parser ι ε α := fun s =>
  .failure (Diagnostic.expected s descriptor) s

/-- Succeeds at the end of the input only. -/
def endOfInput [Cursor ι σ] [Diagnostic ε ι] : Parser ι ε Unit := fun s =>
  if Cursor.isEmpty s then .success () s else .failure (Diagnostic.expectedEnd s) s

/-- Applies a function to the value. -/
def map (f : α → β) (p : Parser ι ε α) : Parser ι ε β := fun s => (p s).map f

/-- Applies a function to the value that may refuse it.  A refusal is an error at the input. -/
def tryMap [Seed ρ ε ι] (f : α → Except ρ β) (p : Parser ι ε α) : Parser ι ε β := fun s =>
  match p s with
  | .success a r =>
    match f a with
    | .ok b => .success b r
    | .error reason => .failure (Seed.raise s reason) s
  | .failure e _ => .failure e s

/-- Applies a function to the error. -/
def mapError (f : ε → ε') (p : Parser ι ε α) : Parser ι ε' α := fun s =>
  match p s with
  | .success a r => .success a r
  | .failure e o => .failure (f e) o

/-- Describes a recoverable failure in the given words.  It stays where it is. -/
def label [Diagnostic ε ι] (descriptor : String) (p : Parser ι ε α) : Parser ι ε α := fun s =>
  match p s with
  | .success a r => .success a r
  | .failure e o =>
    if Diagnostic.isFatal e then .failure e o
    else .failure (Diagnostic.relabel descriptor e) o

/-- Accepts only values that pass the check. -/
def verify [Diagnostic ε ι] (check : α → Bool) (p : Parser ι ε α) : Parser ι ε α := fun s =>
  match p s with
  | .success a r =>
    if check a then .success a r else .failure (Diagnostic.expected s "verify") s
  | .failure e _ => .failure e s

/-- Accepts only if nothing remains. -/
def complete [Cursor ι σ] [Diagnostic ε ι] (p : Parser ι ε α) : Parser ι ε α := fun s =>
  match p s with
  | .success a r =>
    if Cursor.isEmpty r then .success a r else .failure (Diagnostic.expectedEnd r) s
  | .failure e o => .failure e o

end ParserAlgebra.Parser
