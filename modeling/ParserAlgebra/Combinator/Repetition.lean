import ParserAlgebra.Combinator.Sequence

/-!
# Repetition

Parsers that run another one as often as it matches.  Each round has to make the input shorter: a
match that does not is an error, since it could be repeated for ever.  This guard is what makes
every repetition end, whatever the repeated parser does.

In a separated list the guard watches the elements, each against the input behind its separator.
The separators are free, and one that hands back a longer input than it was given undoes the
progress of the round.  Such rounds, and only they, are counted against `regrowthLimit`.
-/

set_option autoImplicit false

namespace ParserAlgebra.Parser

variable {ι σ ε α β : Type} [Cursor ι σ] [Diagnostic ε ι]

/-- Runs a parser until it fails recoverably, and collects its values. -/
def gather (p : Parser ι ε α) (guard : String) (s : ι) : Except ε (List α × ι) :=
  match p s with
  | .success a r =>
    if Cursor.length r < Cursor.length s then prepend a (gather p guard r)
    else .error (Diagnostic.expected s guard)
  | .failure e _ => if Diagnostic.isFatal e then .error e else .ok ([], s)
termination_by Cursor.length s

/-- As many matches as there are. -/
def many (p : Parser ι ε α) : Parser ι ε (List α) := fun s => .ofExcept s (gather p "Many0" s)

/-- As many matches as there are, and at least one. -/
def many1 (p : Parser ι ε α) : Parser ι ε (List α) := fun s =>
  match p s with
  | .success a r =>
    if Cursor.length r < Cursor.length s then .ofExcept s (prepend a (gather p "Many1" r))
    else .failure (Diagnostic.expected s "Many1") s
  | .failure e _ => .failure e s

/-- How many rounds of a separated list may end with no less input than they began with. -/
def regrowthLimit : Nat := Nat.pow 2 64

/-- The elements behind the first one, each with its separator.  A separator without an element is
left unread.  There is no answer when more than `limit` rounds have not shortened the input. -/
def gatherSep (sep : Parser ι ε β) (p : Parser ι ε α) (guard : String) (limit : Nat)
    (s : ι) : Option (Except ε (List α × ι)) :=
  match sep s with
  | .failure e _ => if Diagnostic.isFatal e then some (.error e) else some (.ok ([], s))
  | .success _ u =>
    match p u with
    | .failure e _ => if Diagnostic.isFatal e then some (.error e) else some (.ok ([], s))
    | .success a r =>
      if Cursor.length r < Cursor.length u then
        if Cursor.length r < Cursor.length s then
          (gatherSep sep p guard limit r).map (prepend a)
        else
          match limit with
          | 0 => none
          | limit + 1 => (gatherSep sep p guard limit r).map (prepend a)
      else some (.error (Diagnostic.expected u guard))
termination_by (limit, Cursor.length s)

/-- A list with separators, whose first element may be missing unless one is `required`. -/
def sepByGuarded (required : Bool) (guard : String) (sep : Parser ι ε β) (p : Parser ι ε α) :
    Parser ι ε (List α) := fun s =>
  match p s with
  | .success a r =>
    if Cursor.length r < Cursor.length s then
      match gatherSep sep p guard regrowthLimit r with
      | some rest => .ofExcept s (prepend a rest)
      | none => .failure (Diagnostic.expected s guard) s
    else .failure (Diagnostic.expected s guard) s
  | .failure e _ =>
    if Diagnostic.isFatal e || required then .failure e s else .success [] s

/-- A list with separators, which may be empty. -/
def sepBy (sep : Parser ι ε β) (p : Parser ι ε α) : Parser ι ε (List α) :=
  sepByGuarded false "SeparatedList0" sep p

/-- A list with separators and at least one element. -/
def sepBy1 (sep : Parser ι ε β) (p : Parser ι ε α) : Parser ι ε (List α) :=
  sepByGuarded true "SeparatedList1" sep p

end ParserAlgebra.Parser
