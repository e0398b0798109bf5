import ParserAlgebra.Symbol

/-!
# Cursors

A *cursor* is a place in some input, together with everything that follows it.  Parsers know
their input through this interface alone: the next symbol, and the length that is left, counted
in whatever unit the input is stored in.

* `Cursor` — the operations and the laws that every kind of input keeps: the next symbol is
  missing exactly when the length is zero, and taking one makes the length strictly smaller.
* `Cursor.toList` — the symbols that are left.
* `Cursor.advanceByNext` — skipping symbols one by one.  A kind of input may skip faster, as long
  as it ends up in the same place (`Cursor.advance_eq`).
-/

set_option autoImplicit false

namespace ParserAlgebra

/-- Skips up to `n` symbols, one by one, and counts those it skipped. -/
def advanceByNext {ι σ : Type} (next? : ι → Option (σ × ι)) : Nat → ι → Nat × ι
  | 0, s => (0, s)
  | n + 1, s =>
    match next? s with
    | none => (0, s)
    | some (_, t) =>
      let (k, r) := advanceByNext next? n t
      (k + 1, r)

/-- A kind of input `ι` whose symbols are `σ`. -/
class Cursor (ι : Type) (σ : outParam Type) where
  /-- The first symbol, and the cursor behind it. -/
  next? : ι → Option (σ × ι)
  /-- How much is left to read, in storage units. -/
  length : ι → Nat
  /-- How much of the underlying buffer follows, whether or not this cursor may read it. -/
  ahead : ι → Nat
  /-- Skips up to so many symbols and counts those it skipped. -/
  advance : Nat → ι → Nat × ι := advanceByNext next?
  next?_eq_none_iff : ∀ s : ι, next? s = none ↔ length s = 0
  length_lt_of_next? : ∀ {s t : ι} {x : σ}, next? s = some (x, t) → length t < length s
  advance_eq : ∀ (n : Nat) (s : ι), advance n s = advanceByNext next? n s := by intros; rfl

namespace Cursor

variable {ι σ : Type} [Cursor ι σ]

def isEmpty (s : ι) : Bool := length s == 0

theorem isEmpty_iff {s : ι} : isEmpty s = true ↔ length s = 0 := by simp [isEmpty]

/-- The next symbol, without moving. -/
def peek? (s : ι) : Option σ := (next? s).map Prod.fst

/-- The cursor behind the next symbol.  At the end it stays where it is. -/
def tail (s : ι) : ι := ((next? s).map Prod.snd).getD s

theorem length_tail_lt {s : ι} (h : isEmpty s = false) : length (tail s) < length s := by
  cases hn : next? s with
  | none => simp [isEmpty, (next?_eq_none_iff s).1 hn] at h
  | some p => simpa [tail, hn] using length_lt_of_next? hn

/-- Are two cursors at the same place?  Both must belong to one buffer. -/
def samePlace (s t : ι) : Bool := ahead s == ahead t

/-- The symbols that are left. -/
def toList (s : ι) : List σ :=
  match _h : next? s with
  | none => []
  | some (x, t) => x :: toList t
termination_by length s
decreasing_by exact length_lt_of_next? _h

theorem toList_of_none {s : ι} (h : next? s = none) : toList s = [] := by
  rw [toList]
  split
  · rfl
  · simp_all

theorem toList_of_some {s t : ι} {x : σ} (h : next? s = some (x, t)) :
    toList s = x :: toList t := by
  rw [toList]
  split
  · simp_all
  · simp_all

theorem toList_eq_nil_iff {s : ι} : toList s = [] ↔ length s = 0 := by
  rw [← next?_eq_none_iff]
  cases h : next? s with
  | none => simp [toList_of_none h]
  | some p => simp [toList_of_some (x := p.1) (t := p.2) h]

theorem toList_tail (s : ι) : toList (tail s) = (toList s).tail := by
  cases h : next? s with
  | none => simp [tail, h, toList_of_none h]
  | some p => simp [tail, h, toList_of_some (x := p.1) (t := p.2) h]

/-- The text that is left, symbol by symbol. -/
def text [Symbol σ] (s : ι) : String := Symbol.textOf (toList s)

end Cursor

end ParserAlgebra
