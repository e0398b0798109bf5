import ParserAlgebra.Outcome
import ParserAlgebra.Diagnostic
import ParserAlgebra.Pair

/-!
# Sequences

Parsers run one after another, each on what the one before it left.  If one fails, the whole fails
with its error, anchored where the whole began.
-/

set_option autoImplicit false

namespace ParserAlgebra.Parser

variable {ι σ ε α β γ : Type}

def pair (p : Parser ι ε α) (q : Parser ι ε β) : Parser ι ε (Pair α β) := fun s =>
  match p s with
  | .success a r =>
    match q r with
    | .success b t => .success ⟨a, b⟩ t
    | .failure e _ => .failure e s
  | .failure e _ => .failure e s

/-- A pair with something between its sides. -/
def separatedPair (p : Parser ι ε α) (sep : Parser ι ε γ) (q : Parser ι ε β) :
    Parser ι ε (Pair α β) := fun s =>
  match p s with
  | .success a r =>
    match sep r with
    | .success _ t =>
      match q t with
      | .success b u => .success ⟨a, b⟩ u
      | .failure e _ => .failure e s
    | .failure e _ => .failure e s
  | .failure e _ => .failure e s

/-- The value of the second parser. -/
def seqRight (p : Parser ι ε α) (q : Parser ι ε β) : Parser ι ε β := fun s =>
  match p s with
  | .success _ r =>
    match q r with
    | .success b t => .success b t
    | .failure e _ => .failure e s
  | .failure e _ => .failure e s

/-- The value of the first parser. -/
def seqLeft (p : Parser ι ε α) (q : Parser ι ε β) : Parser ι ε α := fun s =>
  match p s with
  | .success a r =>
    match q r with
    | .success _ t => .success a t
    | .failure e _ => .failure e s
  | .failure e _ => .failure e s

/-- The value of the parser in the middle. -/
def between (p : Parser ι ε α) (q : Parser ι ε β) (close : Parser ι ε γ) : Parser ι ε β :=
  fun s =>
    match p s with
    | .success _ r =>
      match q r with
      | .success b t =>
        match close t with
        | .success _ u => .success b u
        | .failure e _ => .failure e s
      | .failure e _ => .failure e s
    | .failure e _ => .failure e s

/-- One more value in front of those collected. -/
def prepend (a : α) : Except ε (List α × ι) → Except ε (List α × ι)
  | .ok (as, r) => .ok (a :: as, r)
  | .error e => .error e

theorem prepend_eq_ok_iff {a : α} {x : Except ε (List α × ι)} {as : List α} {r : ι} :
    prepend a x = .ok (as, r) ↔ ∃ bs, as = a :: bs ∧ x = .ok (bs, r) := by
  cases x with
  | error e => simp [prepend]
  | ok p =>
      obtain ⟨bs, t⟩ := p
      simp only [prepend, Except.ok.injEq, Prod.mk.injEq]
      constructor
      · rintro ⟨rfl, rfl⟩
        exact ⟨bs, rfl, rfl, rfl⟩
      · rintro ⟨cs, rfl, rfl, rfl⟩
        exact ⟨rfl, rfl⟩

theorem prepend_eq_error_iff {a : α} {x : Except ε (List α × ι)} {e : ε} :
    prepend a x = .error e ↔ x = .error e := by
  cases x <;> simp [prepend]

/-- The values of parsers run one after another, or the first error. -/
def collect : List (Parser ι ε α) → ι → Except ε (List α × ι)
  | [], s => .ok ([], s)
  | p :: ps, s =>
    match p s with
    | .success a r => prepend a (collect ps r)
    | .failure e _ => .error e

/-- Any number of parsers of one type. -/
def sequence (ps : List (Parser ι ε α)) : Parser ι ε (List α) := fun s =>
  .ofExcept s (collect ps s)

/-- The values of `n` runs of one parser, or the first error. -/
def replicate (p : Parser ι ε α) : Nat → ι → Except ε (List α × ι)
  | 0, s => .ok ([], s)
  | n + 1, s =>
    match p s with
    | .success a r => prepend a (replicate p n r)
    | .failure e _ => .error e

theorem replicate_eq_collect (p : Parser ι ε α) (n : Nat) (s : ι) :
    replicate p n s = collect (List.replicate n p) s := by
  induction n generalizing s with
  | zero => rfl
  | succ n ih =>
      rw [replicate, List.replicate_succ, collect]
      cases p s with
      | success a r => simp only [ih]
      | failure e o => rfl

/-- One parser `n` times.  No times, and any number of times on empty input, is a failure. -/
def times [Cursor ι σ] [Diagnostic ε ι] (p : Parser ι ε α) (n : Nat) : Parser ι ε (List α) :=
  fun s =>
    if n == 0 || Cursor.isEmpty s then .failure (Diagnostic.expected s "Count") s
    else .ofExcept s (replicate p n s)

end ParserAlgebra.Parser
