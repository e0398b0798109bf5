import ParserAlgebra.Grammar

/-!
# What a tree is made of

`Grammar.Every P g` says that the tree `g` and every tree inside it satisfy `P`.  The properties of
trees that theorems ask for are all of this form.

* `Grammar.LeavesSatisfy` — every parser that a client brought along satisfies a predicate.
* `Grammar.KeepsErrors` — no error is ever changed by a client's function.
-/

set_option autoImplicit false

namespace ParserAlgebra.Grammar

variable {ι σ : Type}

/-- `P` holds of the tree and of every tree inside it. -/
def Every (P : ∀ {ε α : Type}, Grammar ι σ ε α → Prop) :
    {ε α : Type} → Grammar ι σ ε α → Prop
  | _, _, leaf p => P (.leaf p)
  | _, _, primitive p => P (.primitive p)
  | _, _, integerAs read => P (.integerAs read)
  | _, _, succeed (ε := ε) a => P (.succeed (ε := ε) a)
  | _, _, fail (ε := ε) (α := α) d => P (.fail (ε := ε) (α := α) d)
  | _, _, endOfInput (ε := ε) => P (.endOfInput (ε := ε))
  | _, _, map f p => P (.map f p) ∧ p.Every P
  | _, _, tryMap f p => P (.tryMap f p) ∧ p.Every P
  | _, _, mapError f p => P (.mapError f p) ∧ p.Every P
  | _, _, label d p => P (.label d p) ∧ p.Every P
  | _, _, verify check p => P (.verify check p) ∧ p.Every P
  | _, _, complete p => P (.complete p) ∧ p.Every P
  | _, _, notFollowedBy p => P (.notFollowedBy p) ∧ p.Every P
  | _, _, optional p => P (.optional p) ∧ p.Every P
  | _, _, withDefault a p => P (.withDefault a p) ∧ p.Every P
  | _, _, lookahead p => P (.lookahead p) ∧ p.Every P
  | _, _, spanOf p => P (.spanOf p) ∧ p.Every P
  | _, _, yielding b p => P (.yielding b p) ∧ p.Every P
  | _, _, takeUntil p => P (.takeUntil p) ∧ p.Every P
  | _, _, orElse p q => P (.orElse p q) ∧ p.Every P ∧ q.Every P
  | _, _, firstOf n ps => P (.firstOf n ps) ∧ ∀ i, (ps i).Every P
  | _, _, pair p q => P (.pair p q) ∧ p.Every P ∧ q.Every P
  | _, _, separatedPair p sep q =>
    P (.separatedPair p sep q) ∧ p.Every P ∧ sep.Every P ∧ q.Every P
  | _, _, seqRight p q => P (.seqRight p q) ∧ p.Every P ∧ q.Every P
  | _, _, seqLeft p q => P (.seqLeft p q) ∧ p.Every P ∧ q.Every P
  | _, _, between p q close => P (.between p q close) ∧ p.Every P ∧ q.Every P ∧ close.Every P
  | _, _, sequence n ps => P (.sequence n ps) ∧ ∀ i, (ps i).Every P
  | _, _, times p n => P (.times p n) ∧ p.Every P
  | _, _, many p => P (.many p) ∧ p.Every P
  | _, _, many1 p => P (.many1 p) ∧ p.Every P
  | _, _, sepBy sep p => P (.sepBy sep p) ∧ sep.Every P ∧ p.Every P
  | _, _, sepBy1 sep p => P (.sepBy1 sep p) ∧ sep.Every P ∧ p.Every P

/-- If the tree is a client's own parser, it satisfies `P`. -/
def IfLeaf (P : ∀ {ε α : Type}, Parser ι ε α → Prop) {ε α : Type} : Grammar ι σ ε α → Prop
  | leaf p => P p
  | _ => True

/-- Every parser of a client in the tree satisfies `P`. -/
abbrev LeavesSatisfy (P : ∀ {ε α : Type}, Parser ι ε α → Prop) {ε α : Type}
    (g : Grammar ι σ ε α) : Prop :=
  g.Every (IfLeaf P)

/-- Does the tree change errors by a client's function at its root? -/
def IsMapError {ε α : Type} : Grammar ι σ ε α → Prop
  | mapError _ _ => True
  | _ => False

/-- No part of the tree changes errors by a client's function. -/
abbrev KeepsErrors {ε α : Type} (g : Grammar ι σ ε α) : Prop := g.Every fun g => ¬ g.IsMapError

end ParserAlgebra.Grammar
