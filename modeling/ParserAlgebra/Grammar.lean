import ParserAlgebra.Combinator.Nest
import ParserAlgebra.Combinator.Repetition
import ParserAlgebra.Primitive.Number

/-!
# Grammars

A grammar is a parser written down as a tree: the leaves are the primitive parsers and a client's
own parsers, and the nodes are the combinators.  `Grammar.parse` gives each tree its parser, so
what holds of every grammar holds of every parser that is put together from these parts.

* `Primitive` — the primitive parsers, which report a `ParseError`.
* `Grammar` — trees, by the types of their errors and values.  Only `mapError` takes a tree of one
  error type to a tree of another.
* `Grammar.parse_balancedChoice`, `Grammar.parse_balancedSequence` — a list of trees that is joined
  as a balanced nest is parsed as the balanced nest of their parsers.
-/

set_option autoImplicit false

namespace ParserAlgebra

/-- The primitive parsers, by the type of their values.  Their literals are characters and texts,
whatever the input is made of. -/
inductive Primitive (ι σ : Type) : Type → Type where
  | char (c : Char) : Primitive ι σ σ
  | oneOf (set : Text) : Primitive ι σ σ
  | noneOf (set : Text) : Primitive ι σ σ
  | satisfy (accepts : σ → Bool) : Primitive ι σ σ
  | anySymbol : Primitive ι σ σ
  | lineFeed : Primitive ι σ σ
  | carriageReturn : Primitive ι σ σ
  | space : Primitive ι σ σ
  | tab : Primitive ι σ σ
  | token (pattern : Text) : Primitive ι σ (Span ι)
  | take (n : Nat) : Primitive ι σ (Span ι)
  | takeWhileBetween (least most : Nat) (accepts : σ → Bool) : Primitive ι σ (Span ι)
  | takeWhile (accepts : σ → Bool) : Primitive ι σ (Span ι)
  | takeWhile1 (accepts : σ → Bool) : Primitive ι σ (Span ι)
  | ofClass (k : CharClass) : Primitive ι σ (Span ι)
  | ofClass1 (k : CharClass) : Primitive ι σ (Span ι)
  | crlf : Primitive ι σ (Span ι)
  | newline : Primitive ι σ (Span ι)
  | integer (t : LiteralType) : Primitive ι σ Int
  | number : Primitive ι σ Float

/-- The parser of a primitive. -/
def Primitive.parse {ι σ α : Type} [Cursor ι σ] [Symbol σ] :
    Primitive ι σ α → Parser ι (ParseError ι) α
  | char c => Parser.char c
  | oneOf set => Parser.oneOf set
  | noneOf set => Parser.noneOf set
  | satisfy accepts => Parser.satisfy accepts
  | anySymbol => Parser.anySymbol
  | lineFeed => Parser.lineFeed
  | carriageReturn => Parser.carriageReturn
  | space => Parser.space
  | tab => Parser.tab
  | token pattern => Parser.token pattern
  | take n => Parser.take n
  | takeWhileBetween least most accepts => Parser.takeWhileBetween least most accepts
  | takeWhile accepts => Parser.takeWhile accepts
  | takeWhile1 accepts => Parser.takeWhile1 accepts
  | ofClass k => Parser.ofClass k
  | ofClass1 k => Parser.ofClass1 k
  | crlf => Parser.crlf
  | newline => Parser.newline
  | integer t => Parser.integer t
  | number => Parser.number

/-- Parsers over `ι`, as trees, by the types of their errors and their values. -/
inductive Grammar (ι σ : Type) : Type → Type → Type 1 where
  /-- A client's own parser. -/
  | leaf {ε α : Type} (p : Parser ι ε α) : Grammar ι σ ε α
  | primitive {α : Type} (p : Primitive ι σ α) : Grammar ι σ (ParseError ι) α
  /-- An integer literal, read as a client's own kind of value. -/
  | integerAs {α : Type} (read : List Char → Except Cause α) : Grammar ι σ (ParseError ι) α
  | succeed {ε α : Type} (a : α) : Grammar ι σ ε α
  | fail {ε α : Type} (descriptor : String) : Grammar ι σ ε α
  | endOfInput {ε : Type} : Grammar ι σ ε Unit
  | map {ε α β : Type} (f : α → β) (p : Grammar ι σ ε α) : Grammar ι σ ε β
  | tryMap {ε ρ α β : Type} [Seed ρ ε ι] (f : α → Except ρ β) (p : Grammar ι σ ε α) :
      Grammar ι σ ε β
  | mapError {ε ε' α : Type} [Diagnostic ε ι] (f : ε → ε') (p : Grammar ι σ ε α) :
      Grammar ι σ ε' α
  | label {ε α : Type} (descriptor : String) (p : Grammar ι σ ε α) : Grammar ι σ ε α
  | verify {ε α : Type} (check : α → Bool) (p : Grammar ι σ ε α) : Grammar ι σ ε α
  | complete {ε α : Type} (p : Grammar ι σ ε α) : Grammar ι σ ε α
  | notFollowedBy {ε α : Type} (p : Grammar ι σ ε α) : Grammar ι σ ε Unit
  | optional {ε α : Type} (p : Grammar ι σ ε α) : Grammar ι σ ε (Option α)
  | withDefault {ε α : Type} (fallback : α) (p : Grammar ι σ ε α) : Grammar ι σ ε α
  | lookahead {ε α : Type} (p : Grammar ι σ ε α) : Grammar ι σ ε α
  | spanOf {ε α : Type} (p : Grammar ι σ ε α) : Grammar ι σ ε (Span ι)
  | yielding {ε α β : Type} (b : β) (p : Grammar ι σ ε α) : Grammar ι σ ε β
  | takeUntil {ε α : Type} (p : Grammar ι σ ε α) : Grammar ι σ ε (Span ι)
  | orElse {ε α : Type} (p q : Grammar ι σ ε α) : Grammar ι σ ε α
  | firstOf {ε α : Type} (n : Nat) (ps : Fin n → Grammar ι σ ε α) : Grammar ι σ ε α
  | pair {ε α β : Type} (p : Grammar ι σ ε α) (q : Grammar ι σ ε β) : Grammar ι σ ε (Pair α β)
  | separatedPair {ε α β γ : Type} (p : Grammar ι σ ε α) (sep : Grammar ι σ ε γ)
      (q : Grammar ι σ ε β) : Grammar ι σ ε (Pair α β)
  | seqRight {ε α β : Type} (p : Grammar ι σ ε α) (q : Grammar ι σ ε β) : Grammar ι σ ε β
  | seqLeft {ε α β : Type} (p : Grammar ι σ ε α) (q : Grammar ι σ ε β) : Grammar ι σ ε α
  | between {ε α β γ : Type} (p : Grammar ι σ ε α) (q : Grammar ι σ ε β)
      (close : Grammar ι σ ε γ) : Grammar ι σ ε β
  | sequence {ε α : Type} (n : Nat) (ps : Fin n → Grammar ι σ ε α) : Grammar ι σ ε (List α)
  | times {ε α : Type} (p : Grammar ι σ ε α) (n : Nat) : Grammar ι σ ε (List α)
  | many {ε α : Type} (p : Grammar ι σ ε α) : Grammar ι σ ε (List α)
  | many1 {ε α : Type} (p : Grammar ι σ ε α) : Grammar ι σ ε (List α)
  | sepBy {ε α β : Type} (sep : Grammar ι σ ε β) (p : Grammar ι σ ε α) :
      Grammar ι σ ε (List α)
  | sepBy1 {ε α β : Type} (sep : Grammar ι σ ε β) (p : Grammar ι σ ε α) :
      Grammar ι σ ε (List α)

namespace Grammar

variable {ι σ ε α : Type}

section Parse

variable [Cursor ι σ] [Symbol σ]

/-- The parser that a tree describes. -/
def parse : {ε α : Type} → [Diagnostic ε ι] → Grammar ι σ ε α → Parser ι ε α
  | _, _, _, leaf p => p
  | _, _, _, primitive p => p.parse
  | _, _, _, integerAs read => Parser.integerAs read
  | _, _, _, succeed a => Parser.succeed a
  | _, _, _, fail d => Parser.fail d
  | _, _, _, endOfInput => Parser.endOfInput
  | _, _, _, map f p => Parser.map f p.parse
  | _, _, _, tryMap f p => Parser.tryMap f p.parse
  | _, _, _, mapError f p => Parser.mapError f p.parse
  | _, _, _, label d p => Parser.label d p.parse
  | _, _, _, verify check p => Parser.verify check p.parse
  | _, _, _, complete p => Parser.complete p.parse
  | _, _, _, notFollowedBy p => Parser.notFollowedBy p.parse
  | _, _, _, optional p => Parser.optional p.parse
  | _, _, _, withDefault a p => Parser.withDefault a p.parse
  | _, _, _, lookahead p => Parser.lookahead p.parse
  | _, _, _, spanOf p => Parser.spanOf p.parse
  | _, _, _, yielding b p => Parser.yielding b p.parse
  | _, _, _, takeUntil p => Parser.takeUntil p.parse
  | _, _, _, orElse p q => Parser.orElse p.parse q.parse
  | _, _, _, firstOf _ ps => Parser.firstOf (List.ofFn fun i => (ps i).parse)
  | _, _, _, pair p q => Parser.pair p.parse q.parse
  | _, _, _, separatedPair p sep q => Parser.separatedPair p.parse sep.parse q.parse
  | _, _, _, seqRight p q => Parser.seqRight p.parse q.parse
  | _, _, _, seqLeft p q => Parser.seqLeft p.parse q.parse
  | _, _, _, between p q close => Parser.between p.parse q.parse close.parse
  | _, _, _, sequence _ ps => Parser.sequence (List.ofFn fun i => (ps i).parse)
  | _, _, _, times p n => Parser.times p.parse n
  | _, _, _, many p => Parser.many p.parse
  | _, _, _, many1 p => Parser.many1 p.parse
  | _, _, _, sepBy sep p => Parser.sepBy sep.parse p.parse
  | _, _, _, sepBy1 sep p => Parser.sepBy1 sep.parse p.parse

end Parse

/-- Any number of grammars in order. -/
def sequenceOf (ps : List (Grammar ι σ ε α)) : Grammar ι σ ε (List α) :=
  sequence ps.length ps.get

/-- The first of any number of grammars. -/
def firstOfList (ps : List (Grammar ι σ ε α)) : Grammar ι σ ε α :=
  firstOf ps.length ps.get

/-- A nest of grammars joined by choices. -/
def nestedChoice (t : Nest (Grammar ι σ ε α)) : Grammar ι σ ε α := t.fold (fun p => p) orElse

/-- A nest of grammars joined by pairs, with a nest for its value. -/
def nestedSequence : Nest (Grammar ι σ ε α) → Grammar ι σ ε (Nest α)
  | .leaf p => map Nest.leaf p
  | .node l r => map (fun v => .node v.left v.right) (pair (nestedSequence l) (nestedSequence r))

/-- The balanced choice between grammars. -/
def balancedChoice : List (Grammar ι σ ε α) → Grammar ι σ ε α
  | [] => fail "alternative"
  | p :: ps => nestedChoice (.balanced (p :: ps) (by simp))

/-- The grammars of a list as a balanced nest of pairs, which is taken apart by a pattern. -/
def balancedSequence : List (Grammar ι σ ε α) → Grammar ι σ ε (List α)
  | [] => succeed []
  | p :: ps =>
    map (Nest.tuple (p :: ps).length) (nestedSequence (.balanced (p :: ps) (by simp)))

variable [Cursor ι σ] [Symbol σ] [Diagnostic ε ι]

theorem parse_nestedChoice (t : Nest (Grammar ι σ ε α)) :
    (nestedChoice t).parse = Parser.nestedChoice (t.map parse) := by
  induction t with
  | leaf p => rfl
  | node l r ihl ihr =>
      show Parser.orElse (nestedChoice l).parse (nestedChoice r).parse = _
      rw [ihl, ihr]
      rfl

theorem parse_nestedSequence (t : Nest (Grammar ι σ ε α)) :
    (nestedSequence t).parse = Parser.nestedSequence (t.map parse) := by
  induction t with
  | leaf p => rfl
  | node l r ihl ihr => simp only [nestedSequence, parse, Nest.map, Parser.nestedSequence, ihl, ihr]

theorem parse_balancedChoice (ps : List (Grammar ι σ ε α)) :
    (balancedChoice ps).parse = Parser.balancedChoice (ps.map parse) := by
  cases ps with
  | nil => rfl
  | cons p ps => simp only [balancedChoice, parse_nestedChoice, Nest.map_balanced]; rfl

theorem parse_balancedSequence (ps : List (Grammar ι σ ε α)) :
    (balancedSequence ps).parse = Parser.balancedSequence (ps.map parse) := by
  cases ps with
  | nil => rfl
  | cons p ps =>
      simp only [balancedSequence, parse, parse_nestedSequence, Nest.map_balanced]
      simp only [List.map_cons, Parser.balancedSequence, List.length_cons, List.length_map]

theorem parse_sequenceOf (ps : List (Grammar ι σ ε α)) :
    (sequenceOf ps).parse = Parser.sequence (ps.map parse) := by
  simp only [sequenceOf, parse]
  congr 1
  apply List.ext_getElem <;> simp

theorem parse_firstOfList (ps : List (Grammar ι σ ε α)) :
    (firstOfList ps).parse = Parser.firstOf (ps.map parse) := by
  simp only [firstOfList, parse]
  congr 1
  apply List.ext_getElem <;> simp

end Grammar

end ParserAlgebra
