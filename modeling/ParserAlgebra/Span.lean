import ParserAlgebra.Cursor.Text
import ParserAlgebra.Cursor.Slice

/-!
# Spans

A span is given by two cursors: it starts at the first and stops where the second starts.  What
it holds is decided by lengths alone, so the two need not belong to one buffer; a span whose stop
has more left than its start is empty.

* A span is itself a kind of input, so spans nest to any depth.
* Spans are equal when their lengths and their symbols are (`Span.beq_iff`), wherever they lie.
* `Span.block?` — the stored text under a span.  It is missing when the span's length cuts a
  character in two.
-/

set_option autoImplicit false

namespace ParserAlgebra

/-- The input from one cursor to another. -/
structure Span (ι : Type) where
  start : ι
  stop : ι

namespace Span

variable {ι σ : Type} [Cursor ι σ]

/-- How much further the start is from the end of its buffer than the stop is from its own. -/
def length (s : Span ι) : Nat := Cursor.length s.start - Cursor.length s.stop

def next? (s : Span ι) : Option (σ × Span ι) :=
  if Cursor.length s.start ≤ Cursor.length s.stop then none
  else (Cursor.next? s.start).map fun p => (p.1, ⟨p.2, s.stop⟩)

theorem next?_eq_none_iff (s : Span ι) : s.next? = none ↔ s.length = 0 := by
  unfold next? length
  split
  · simp only [true_iff]
    omega
  · rw [Option.map_eq_none_iff, Cursor.next?_eq_none_iff]
    omega

theorem next?_start_of_next? {s t : Span ι} {x : σ} (h : s.next? = some (x, t)) :
    Cursor.next? s.start = some (x, t.start) ∧ t.stop = s.stop ∧
      Cursor.length s.stop < Cursor.length s.start := by
  unfold next? at h
  split at h
  · cases h
  · rw [Option.map_eq_some_iff] at h
    obtain ⟨⟨y, r⟩, hn, h⟩ := h
    cases h
    exact ⟨hn, rfl, by omega⟩

theorem length_lt_of_next? {s t : Span ι} {x : σ} (h : s.next? = some (x, t)) :
    t.length < s.length := by
  obtain ⟨hn, hs, hl⟩ := next?_start_of_next? h
  have := Cursor.length_lt_of_next? hn
  unfold length
  rw [hs]
  omega

instance : Cursor (Span ι) σ where
  next? := next?
  length := length
  ahead s := Cursor.ahead s.start
  next?_eq_none_iff := next?_eq_none_iff
  length_lt_of_next? := length_lt_of_next?

/-- The symbols of a span. -/
def toList (s : Span ι) : List σ := Cursor.toList s

/-- The text of a span, symbol by symbol. -/
def text [Symbol σ] (s : Span ι) : String := Cursor.text s

/-- Spans are compared by length and symbols, and not by place. -/
instance [BEq σ] : BEq (Span ι) := ⟨fun s t => s.length == t.length && s.toList == t.toList⟩

theorem beq_iff [BEq σ] [LawfulBEq σ] {s t : Span ι} :
    (s == t) = true ↔ s.length = t.length ∧ s.toList = t.toList := by
  show (s.length == t.length && s.toList == t.toList) = true ↔ _
  simp

/-- The input of the text `text` alone, within a longer buffer that goes on with `tail`. -/
def confine {κ : Type} [Append κ] (store : κ → ι) (text tail : κ) : Span ι :=
  ⟨store (text ++ tail), store tail⟩

/-- How far the two ends of a span are from the place `whole`. -/
def bounds (whole : ι) (s : Span ι) : Nat × Nat :=
  (Cursor.length whole - Cursor.length s.start, Cursor.length whole - Cursor.length s.stop)

end Span

/-- A kind of input that is stored in one block, so that its first `n` storage units can be read
without going through the symbols. -/
class Buffer (ι : Type) (σ : outParam Type) [Cursor ι σ] where
  /-- The first `n` units, unless there are fewer or the cut falls inside a symbol. -/
  cut? : Nat → ι → Option (List σ)

instance : Buffer Text Char := ⟨Text.cut?⟩

instance {σ : Type} : Buffer (Slice σ) σ := ⟨Slice.cut?⟩

namespace Span

variable {ι σ : Type} [Cursor ι σ] [Buffer ι σ]

/-- The block of storage under a span, unless its length cuts a symbol in two. -/
def block? (s : Span ι) : Option (List σ) := Buffer.cut? s.length s.start

/-- Is the block under the span exactly `xs`?  A span without a block equals nothing. -/
def holds [BEq σ] (s : Span ι) (xs : List σ) : Bool :=
  match s.block? with
  | none => false
  | some ys => ys == xs

/-- How a span is shown: its block, or nothing if it has none. -/
def display [Symbol σ] (s : Span ι) : String :=
  match s.block? with
  | none => ""
  | some xs => Symbol.textOf xs

end Span

end ParserAlgebra
