import ParserAlgebra.Combinator.Choice
import ParserAlgebra.Combinator.Sequence
import ParserAlgebra.Combinator.Transform

/-!
# Nests

A list of parsers can be joined two at a time, in any nesting, by a choice or by a pair.  The
balanced nest cuts the list in the middle, the smaller half first.

The values of a balanced nest of pairs are taken apart by a pattern, which gives each leaf a name.
The pattern is made from the range of the names alone, and never sees the list.

* `Nest.leaves_balanced` — the balanced nest has the elements of the list for its leaves, in order.
* `Nest.pattern`, `Nest.bindings` — the pattern of a range of names, and what it binds them to.
* `Nest.tuple` — the values that a pattern has named, in the order of the names.
-/

set_option autoImplicit false

namespace ParserAlgebra

universe u v

/-- A way of joining the elements of a list two at a time. -/
inductive Nest (α : Type u) where
  | leaf (a : α)
  | node (l r : Nest α)

namespace Nest

variable {α : Type u} {β : Type v}

/-- Replaces leaves and nodes. -/
def fold (leaf : α → β) (node : β → β → β) : Nest α → β
  | .leaf a => leaf a
  | .node l r => node (l.fold leaf node) (r.fold leaf node)

/-- The leaves from left to right. -/
def leaves : Nest α → List α
  | leaf a => [a]
  | node l r => l.leaves ++ r.leaves

def map (f : α → β) : Nest α → Nest β
  | leaf a => leaf (f a)
  | node l r => node (l.map f) (r.map f)

theorem leaves_map (f : α → β) (t : Nest α) : (t.map f).leaves = t.leaves.map f := by
  induction t with
  | leaf a => rfl
  | node l r ihl ihr => simp [map, leaves, ihl, ihr]

/-- The nest whose halves are as equal as can be. -/
def balanced : (as : List α) → as ≠ [] → Nest α
  | [a], _ => leaf a
  | a :: b :: as, _ =>
    let k := (as.length + 2) / 2
    node
      (balanced ((a :: b :: as).take k) (List.ne_nil_of_length_pos (by
        simp only [List.length_take, List.length_cons]
        omega)))
      (balanced ((a :: b :: as).drop k) (List.ne_nil_of_length_pos (by
        simp only [List.length_drop, List.length_cons]
        omega)))
termination_by as => as.length
decreasing_by
  · simp only [List.length_take, List.length_cons]
    omega
  · simp only [List.length_drop, List.length_cons]
    omega

theorem leaves_balanced (as : List α) (h : as ≠ []) : (balanced as h).leaves = as := by
  fun_induction balanced as h with
  | case1 => rfl
  | case2 a b as _ k _ ihl ihr => rw [leaves, ihl, ihr, List.take_append_drop]

theorem map_balanced (f : α → β) (as : List α) (h : as ≠ []) :
    (balanced as h).map f = balanced (as.map f) (by simpa using h) := by
  fun_induction balanced as h with
  | case1 a => simp [map, balanced]
  | case2 a b as _ k _ ihl ihr =>
      simp only [map, ihl, ihr, List.map_cons, balanced, List.length_map, List.map_take,
        List.map_drop, k]

/-- The nest of the names from `start` up to `stop`, cut in the middle of the range. -/
def pattern (start stop : Nat) : Nest Nat :=
  if stop - start ≤ 1 then leaf start
  else
    let mid := start + (stop - start) / 2
    node (pattern start mid) (pattern mid stop)
termination_by stop - start

/-- What the names of a pattern stand for when it is laid over a nest.  Names and values that do not
lie on each other bind nothing. -/
def bindings : Nest Nat → Nest α → List (Nat × α)
  | leaf i, leaf a => [(i, a)]
  | node p q, node l r => p.bindings l ++ q.bindings r
  | _, _ => []

/-- A nest taken apart by the pattern of the first `n` names, and listed by name. -/
def tuple (n : Nat) (t : Nest α) : List α :=
  let bound := (pattern 0 n).bindings t
  (List.range n).filterMap fun i => bound.lookup i

end Nest

namespace Parser

variable {ι ε α : Type}

/-- The choice between the leaves of a nest. -/
def nestedChoice [Diagnostic ε ι] (t : Nest (Parser ι ε α)) : Parser ι ε α :=
  t.fold (fun p => p) orElse

/-- The leaves of a nest run from left to right, with a nest of their values. -/
def nestedSequence : Nest (Parser ι ε α) → Parser ι ε (Nest α)
  | .leaf p => map Nest.leaf p
  | .node l r => map (fun v => .node v.left v.right) (pair (nestedSequence l) (nestedSequence r))

/-- The balanced choice between the parsers of a list. -/
def balancedChoice [Diagnostic ε ι] : List (Parser ι ε α) → Parser ι ε α
  | [] => fail "alternative"
  | p :: ps => nestedChoice (.balanced (p :: ps) (by simp))

/-- The parsers of a list run as a balanced nest of pairs, which is taken apart by a pattern. -/
def balancedSequence : List (Parser ι ε α) → Parser ι ε (List α)
  | [] => succeed []
  | p :: ps =>
    map (Nest.tuple (p :: ps).length) (nestedSequence (.balanced (p :: ps) (by simp)))

end Parser

end ParserAlgebra
