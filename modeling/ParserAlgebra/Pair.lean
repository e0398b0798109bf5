/-!
# Pairs of results

The value of two parsers run one after the other, ordered by the left side first.
-/

set_option autoImplicit false

namespace ParserAlgebra

structure Pair (α β : Type) where
  left : α
  right : β
deriving DecidableEq, Repr, BEq, Inhabited

namespace Pair

variable {α β : Type}

def swap (p : Pair α β) : Pair β α := ⟨p.right, p.left⟩

/-- The left sides decide, and the right sides where those are equal. -/
def compare [Ord α] [Ord β] (p q : Pair α β) : Ordering :=
  (Ord.compare p.left q.left).then (Ord.compare p.right q.right)

instance [Ord α] [Ord β] : Ord (Pair α β) := ⟨compare⟩

/-- The larger of two pairs, and the second if neither is larger. -/
def max [Ord α] [Ord β] (p q : Pair α β) : Pair α β :=
  if p.compare q == .gt then p else q

/-- A pair spelled out with the names of its sides. -/
def describe [ToString α] [ToString β] (p : Pair α β) : String :=
  "PairContainer \x7b left: " ++ toString p.left ++ ", right: " ++ toString p.right ++ " \x7d"

end Pair

end ParserAlgebra
