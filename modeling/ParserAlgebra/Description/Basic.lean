import ParserAlgebra.Grammar
import ParserAlgebra.Value

/-!
# Descriptions

A description is a grammar whose values all have one type, so that it can be put together while
the program runs.  Besides the nodes of a grammar it has named rules, which may refer to each
other, and three parsers of a client: one that runs two parsers without anchoring, one that goes
on with other input, and one that reads how much to read.

* `Description.grammar` — the grammar of a description, given the parsers of its rules.
-/

set_option autoImplicit false

namespace ParserAlgebra

namespace Parser

variable {ι ε α β : Type}

/-- Runs the second parser on what the first leaves, and hands on whatever comes out. -/
def andThen (p : Parser ι ε α) (q : Parser ι ε β) : Parser ι ε β := fun s =>
  match p s with
  | .success _ r => q r
  | .failure e o => .failure e o

/-- Goes on with the input `t`, whatever the input was. -/
def goTo (t : ι) : Parser ι ε Unit := fun _ => .success () t

/-- Reads a number, and then what a parser made from that number reads.  A value that is no number
is followed by nothing. -/
def counted (p : Parser ι ε α) (number? : α → Option Nat) (q : Nat → Parser ι ε β) :
    Parser ι ε (Option β) := fun s =>
  match p s with
  | .success a r =>
    match number? a with
    | none => .success none r
    | some n =>
      match q n r with
      | .success b t => .success (some b) t
      | .failure e _ => .failure e s
  | .failure e o => .failure e o

end Parser

/-- A parser put together from values of one type. -/
inductive Description (ι σ ε κ : Type) where
  | symbol (p : Primitive ι σ σ)
  | span (p : Primitive ι σ (Span ι))
  | integer (t : LiteralType)
  | number
  | succeed (k : κ)
  | fail (descriptor : String)
  | endOfInput
  | map (f : Value ι σ κ → Value ι σ κ) (p : Description ι σ ε κ)
  | tryMap (f : Value ι σ κ → Except Rejection (Value ι σ κ)) (p : Description ι σ ε κ)
  | mapError (f : ε → ε) (p : Description ι σ ε κ)
  | label (descriptor : String) (p : Description ι σ ε κ)
  | verify (check : Value ι σ κ → Bool) (p : Description ι σ ε κ)
  | complete (p : Description ι σ ε κ)
  | notFollowedBy (p : Description ι σ ε κ)
  | optional (p : Description ι σ ε κ)
  | withDefault (fallback : Value ι σ κ) (p : Description ι σ ε κ)
  | lookahead (p : Description ι σ ε κ)
  | spanOf (p : Description ι σ ε κ)
  | yielding (k : κ) (p : Description ι σ ε κ)
  | takeUntil (p : Description ι σ ε κ)
  | orElse (p q : Description ι σ ε κ)
  | firstOf (ps : List (Description ι σ ε κ))
  | balancedChoice (ps : List (Description ι σ ε κ))
  | pair (p q : Description ι σ ε κ)
  | separatedPair (p sep q : Description ι σ ε κ)
  | seqRight (p q : Description ι σ ε κ)
  | seqLeft (p q : Description ι σ ε κ)
  | between (p q close : Description ι σ ε κ)
  | sequence (ps : List (Description ι σ ε κ))
  | balancedSequence (ps : List (Description ι σ ε κ))
  | times (p : Description ι σ ε κ) (n : Nat)
  | many (p : Description ι σ ε κ)
  | many1 (p : Description ι σ ε κ)
  | sepBy (sep p : Description ι σ ε κ)
  | sepBy1 (sep p : Description ι σ ε κ)
  /-- The rule of that name. -/
  | rule (name : String)
  | andThen (p q : Description ι σ ε κ)
  | goTo (t : ι)
  /-- Takes as many symbols as the value of `p` says. -/
  | takeOf (p : Description ι σ ε κ)
  /-- Runs `q` as many times as the value of `p` says. -/
  | countOf (p q : Description ι σ ε κ)

namespace Description

variable {ι σ ε κ : Type} [Cursor ι σ] [Symbol σ] [Diagnostic ε ι]

/-- A choice as a value. -/
def ofOption : Option (Value ι σ κ) → Value ι σ κ
  | none => .none
  | some v => .some v

/-- A pair as a value. -/
def ofPair (v : Pair (Value ι σ κ) (Value ι σ κ)) : Value ι σ κ := .pair v.left v.right

/-- The values of a tuple as one value.  The empty tuple is the unit. -/
def ofTuple : List (Value ι σ κ) → Value ι σ κ
  | [] => .unit
  | vs => .tuple vs

/-- What was read after a number, or nothing. -/
def ofCounted : Option (Value ι σ κ) → Value ι σ κ
  | none => .none
  | some v => v

mutual

/-- The grammar that a description stands for. -/
def grammar (report : ParseError ι → ε) (rules : String → Parser ι ε (Value ι σ κ)) :
    Description ι σ ε κ → Grammar ι σ ε (Value ι σ κ)
  | symbol p => .map Value.symbol (.mapError report (.primitive p))
  | span p => .map Value.span (.mapError report (.primitive p))
  | integer t => .map Value.integer (.mapError report (.primitive (.integer t)))
  | number => .map Value.float (.mapError report (.primitive .number))
  | succeed k => .succeed (.const k)
  | fail d => .fail d
  | endOfInput => .map (fun _ => .unit) .endOfInput
  | map f p => .map f (p.grammar report rules)
  | tryMap f p => .tryMap f (p.grammar report rules)
  | mapError f p => .mapError f (p.grammar report rules)
  | label d p => .label d (p.grammar report rules)
  | verify check p => .verify check (p.grammar report rules)
  | complete p => .complete (p.grammar report rules)
  | notFollowedBy p => .map (fun _ => .unit) (.notFollowedBy (p.grammar report rules))
  | optional p => .map ofOption (.optional (p.grammar report rules))
  | withDefault v p => .withDefault v (p.grammar report rules)
  | lookahead p => .lookahead (p.grammar report rules)
  | spanOf p => .map Value.span (.spanOf (p.grammar report rules))
  | yielding k p => .yielding (.const k) (p.grammar report rules)
  | takeUntil p => .map Value.span (.takeUntil (p.grammar report rules))
  | orElse p q => .orElse (p.grammar report rules) (q.grammar report rules)
  | firstOf ps => .firstOfList (grammars report rules ps)
  | balancedChoice ps => .balancedChoice (grammars report rules ps)
  | pair p q => .map ofPair (.pair (p.grammar report rules) (q.grammar report rules))
  | separatedPair p sep q =>
    .map ofPair (.separatedPair (p.grammar report rules) (sep.grammar report rules)
      (q.grammar report rules))
  | seqRight p q => .seqRight (p.grammar report rules) (q.grammar report rules)
  | seqLeft p q => .seqLeft (p.grammar report rules) (q.grammar report rules)
  | between p q close =>
    .between (p.grammar report rules) (q.grammar report rules) (close.grammar report rules)
  | sequence ps => .map Value.list (.sequenceOf (grammars report rules ps))
  | balancedSequence ps => .map ofTuple (.balancedSequence (grammars report rules ps))
  | times p n => .map Value.list (.times (p.grammar report rules) n)
  | many p => .map Value.list (.many (p.grammar report rules))
  | many1 p => .map Value.list (.many1 (p.grammar report rules))
  | sepBy sep p =>
    .map Value.list (.sepBy (sep.grammar report rules) (p.grammar report rules))
  | sepBy1 sep p =>
    .map Value.list (.sepBy1 (sep.grammar report rules) (p.grammar report rules))
  | rule name => .leaf (rules name)
  | andThen p q =>
    .leaf (Parser.andThen (p.grammar report rules).parse (q.grammar report rules).parse)
  | goTo t => .map (fun _ => .unit) (.leaf (Parser.goTo t))
  | takeOf p =>
    .map ofCounted (.leaf (Parser.counted (p.grammar report rules).parse Value.nat? fun n =>
      Parser.map Value.span (Parser.mapError report (Parser.take n))))
  | countOf p q =>
    .map ofCounted (.leaf (Parser.counted (p.grammar report rules).parse Value.nat? fun n =>
      Parser.map Value.list (Parser.times (q.grammar report rules).parse n)))

/-- The grammars of several descriptions. -/
def grammars (report : ParseError ι → ε) (rules : String → Parser ι ε (Value ι σ κ)) :
    List (Description ι σ ε κ) → List (Grammar ι σ ε (Value ι σ κ))
  | [] => []
  | p :: ps => p.grammar report rules :: grammars report rules ps

end

end Description

end ParserAlgebra
