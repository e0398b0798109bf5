import ParserAlgebra.Description.Basic

/-!
# Rules that refer to each other

A rule book gives descriptions names.  A rule that is reached again at the very input it was
entered with can never finish, so a run that finishes never has more rules open at once than there
are rules and places of the input to enter them at.  `RuleBook.parse` runs a description with that
many rules open at most.

* `Description.jumpRoom` — the number of places that a description can go to by itself.
-/

set_option autoImplicit false

namespace ParserAlgebra

variable {ι σ ε κ : Type} [Cursor ι σ]

mutual

/-- How many places a description can bring into play besides those of the input. -/
def Description.jumpRoom : Description ι σ ε κ → Nat
  | .symbol _ | .span _ | .integer _ | .number | .succeed _ | .fail _ | .endOfInput | .rule _ => 0
  | .goTo t => Cursor.length t + 1
  | .map _ p | .tryMap _ p | .mapError _ p | .label _ p | .verify _ p | .complete p => p.jumpRoom
  | .notFollowedBy p | .optional p | .withDefault _ p | .lookahead p | .spanOf p => p.jumpRoom
  | .yielding _ p | .takeUntil p | .times p _ | .many p | .many1 p | .takeOf p => p.jumpRoom
  | .orElse p q | .pair p q | .seqRight p q | .seqLeft p q => p.jumpRoom + q.jumpRoom
  | .sepBy p q | .sepBy1 p q | .andThen p q | .countOf p q => p.jumpRoom + q.jumpRoom
  | .separatedPair p q r | .between p q r => p.jumpRoom + q.jumpRoom + r.jumpRoom
  | .firstOf ps | .balancedChoice ps => Description.jumpRooms ps
  | .sequence ps | .balancedSequence ps => Description.jumpRooms ps

/-- The sum over several descriptions. -/
def Description.jumpRooms : List (Description ι σ ε κ) → Nat
  | [] => 0
  | p :: ps => p.jumpRoom + Description.jumpRooms ps

end

/-- Descriptions by name. -/
structure RuleBook (ι σ ε κ : Type) where
  rules : List (String × Description ι σ ε κ)

namespace RuleBook

/-- How many rules a run of `p` can have open at once and still finish. -/
def depth (book : RuleBook ι σ ε κ) (p : Description ι σ ε κ) (s : ι) : Nat :=
  book.rules.length *
    (Cursor.length s + 1 + p.jumpRoom + Description.jumpRooms (book.rules.map Prod.snd)) + 1

variable [Symbol σ] [Diagnostic ε ι]

/-- The parser of a rule, with at most so many rules open at once.  A rule that is missing, or that
would be one too many, fails. -/
def rule (book : RuleBook ι σ ε κ) (report : ParseError ι → ε) :
    Nat → String → Parser ι ε (Value ι σ κ)
  | 0, name, s => .failure (Diagnostic.expected s name) s
  | n + 1, name, s =>
    match book.rules.lookup name with
    | none => .failure (Diagnostic.expected s name) s
    | some p => (p.grammar report (book.rule report n)).parse s

/-- The parser of a description that refers to the rules of a book. -/
def parse (book : RuleBook ι σ ε κ) (report : ParseError ι → ε) (p : Description ι σ ε κ) :
    Parser ι ε (Value ι σ κ) := fun s =>
  (p.grammar report (book.rule report (book.depth p s))).parse s

end RuleBook

end ParserAlgebra
