import ParserAlgebra.Outcome
import ParserAlgebra.Diagnostic

/-!
# Ordered choice

Alternatives are tried in order on the same input, and the first outcome that is not a recoverable
failure is the answer, unchanged.  If there is none, the errors are merged in the order in which
they arose.
-/

set_option autoImplicit false

namespace ParserAlgebra.Parser

variable {ι ε α : Type}

/-- The first of two parsers that does not fail recoverably. -/
def orElse [Diagnostic ε ι] (p q : Parser ι ε α) : Parser ι ε α := fun s =>
  match p s with
  | .success a r => .success a r
  | .failure e o =>
    if Diagnostic.isFatal e then .failure e o
    else
      match q s with
      | .success a r => .success a r
      | .failure f o =>
        if Diagnostic.isFatal f then .failure f o else .failure (Diagnostic.merge e f) s

/-- Tries parsers in order, with the merged error of those that were tried before. -/
def tryEach [Diagnostic ε ι] (s : ι) : Option ε → List (Parser ι ε α) → Outcome ι ε α
  | none, [] => .failure (Diagnostic.expected s "alternative") s
  | some e, [] => .failure e s
  | tried, p :: ps =>
    match p s with
    | .success a r => .success a r
    | .failure f o =>
      if Diagnostic.isFatal f then .failure f o
      else
        match tried with
        | none => tryEach s (some f) ps
        | some e => tryEach s (some (Diagnostic.merge e f)) ps

/-- The first of any number of parsers that does not fail recoverably. -/
def firstOf [Diagnostic ε ι] (ps : List (Parser ι ε α)) : Parser ι ε α := fun s =>
  tryEach s none ps

end ParserAlgebra.Parser
