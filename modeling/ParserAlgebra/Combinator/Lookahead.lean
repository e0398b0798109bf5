import ParserAlgebra.Outcome
import ParserAlgebra.Diagnostic
import ParserAlgebra.Span

/-!
# Looking ahead, and doing without

Parsers that run another one to find out whether it matches, and then go back to the start or go
on without it.  A fatal error of the child is never taken for "does not match".
-/

set_option autoImplicit false

namespace ParserAlgebra.Parser

variable {ι σ ε α β : Type}

/-- Succeeds, taking nothing, if the child fails recoverably. -/
def notFollowedBy [Diagnostic ε ι] (p : Parser ι ε α) : Parser ι ε Unit := fun s =>
  match p s with
  | .success _ _ => .failure (Diagnostic.expected s "not") s
  | .failure e _ => if Diagnostic.isFatal e then .failure e s else .success () s

/-- The value of the child, or none if it fails recoverably. -/
def optional [Diagnostic ε ι] (p : Parser ι ε α) : Parser ι ε (Option α) := fun s =>
  match p s with
  | .success a r => .success (some a) r
  | .failure e _ => if Diagnostic.isFatal e then .failure e s else .success none s

/-- The value of the child, or the given one if it fails recoverably. -/
def withDefault [Diagnostic ε ι] (fallback : α) (p : Parser ι ε α) : Parser ι ε α := fun s =>
  match p s with
  | .success a r => .success a r
  | .failure e _ => if Diagnostic.isFatal e then .failure e s else .success fallback s

/-- The value of the child, without moving. -/
def lookahead (p : Parser ι ε α) : Parser ι ε α := fun s =>
  match p s with
  | .success a _ => .success a s
  | .failure e _ => .failure e s

/-- The span of what the child takes, in place of its value. -/
def spanOf (p : Parser ι ε α) : Parser ι ε (Span ι) := fun s =>
  match p s with
  | .success _ r => .success ⟨s, r⟩ r
  | .failure e _ => .failure e s

/-- A fixed value in place of the child's. -/
def yielding (b : β) (p : Parser ι ε α) : Parser ι ε β := fun s =>
  match p s with
  | .success _ r => .success b r
  | .failure e _ => .failure e s

/-- The place of the first match at or behind `s`, short of the end of the input. -/
def findMatch [Cursor ι σ] [Diagnostic ε ι] (p : Parser ι ε α) (s : ι) : Except ε (Option ι) :=
  if _h : Cursor.isEmpty s then .ok none
  else
    match p s with
    | .success _ _ => .ok (some s)
    | .failure e _ => if Diagnostic.isFatal e then .error e else findMatch p (Cursor.tail s)
termination_by Cursor.length s
decreasing_by exact Cursor.length_tail_lt (by simpa using _h)

/-- The span of everything before the first match of the child. -/
def takeUntil [Cursor ι σ] [Diagnostic ε ι] (p : Parser ι ε α) : Parser ι ε (Span ι) := fun s =>
  match findMatch p s with
  | .ok (some r) => .success ⟨s, r⟩ r
  | .ok none => .failure (Diagnostic.expected s "TakeUntil") s
  | .error e => .failure e s

end ParserAlgebra.Parser
