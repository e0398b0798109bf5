import ParserAlgebra.Cursor.Basic
import ParserAlgebra.Diagnostic

/-!
# Parse errors

The library's own error type: a place, what was expected there, and a cause if the error is fatal.

* `ParseError.merge` — of two errors, the one that got further wins; two errors equally far on
  are put together.  Being further on means having less input left.
* `ParseError.merge_assoc` — of any number of errors in a row, it makes no difference which are
  merged first.
* `ParseError.display`, `ParseError.displayAt` — the text shown to a user.
-/

set_option autoImplicit false

namespace ParserAlgebra

/-- What was expected at a place of the input. -/
structure ParseError (ι : Type) where
  position : ι
  expected : List String
  cause : Option Cause
deriving Repr

namespace ParseError

variable {ι σ : Type} [Cursor ι σ]

/-- A recoverable error. -/
def new (s : ι) (descriptors : List String) : ParseError ι := ⟨s, descriptors, none⟩

/-- A fatal error that also says what was expected. -/
def newFatal (s : ι) (cause : Cause) (descriptors : List String) : ParseError ι :=
  ⟨s, descriptors, some cause⟩

/-- An error is fatal when it has a cause. -/
def isFatal (e : ParseError ι) : Bool := e.cause.isSome

/-- How far the error is from the place `whole`. -/
def offset (whole : ι) (e : ParseError ι) : Nat :=
  Cursor.length whole - Cursor.length e.position

/-- The first error, with the descriptors of the second added after its own.  It takes the
second's cause if it has none. -/
def add (e f : ParseError ι) : ParseError ι :=
  ⟨e.position, e.expected ++ f.expected, e.cause.orElse fun _ => f.cause⟩

/-- The error that got further; of two that are equally far on, the first with the second added. -/
def merge (e f : ParseError ι) : ParseError ι :=
  if Cursor.length f.position < Cursor.length e.position then f
  else if Cursor.length f.position = Cursor.length e.position then e.add f
  else e

section Merge

variable {e f : ParseError ι}

theorem merge_of_further (h : Cursor.length f.position < Cursor.length e.position) :
    e.merge f = f :=
  if_pos h

theorem merge_of_level (h : Cursor.length f.position = Cursor.length e.position) :
    e.merge f = e.add f := by
  rw [merge, if_neg (by omega), if_pos h]

theorem merge_of_behind (h : Cursor.length e.position < Cursor.length f.position) :
    e.merge f = e := by
  rw [merge, if_neg (by omega), if_neg (by omega)]

theorem length_merge (e f : ParseError ι) : Cursor.length (e.merge f).position =
    min (Cursor.length e.position) (Cursor.length f.position) := by
  rcases Nat.lt_trichotomy (Cursor.length f.position) (Cursor.length e.position) with h | h | h
  · rw [merge_of_further h]
    omega
  · rw [merge_of_level h, h, Nat.min_self]
    rfl
  · rw [merge_of_behind h]
    omega

end Merge

theorem add_assoc (e f g : ParseError ι) : (e.add f).add g = e.add (f.add g) := by
  simp only [add, List.append_assoc, Option.orElse_eq_or, Option.or_assoc]

theorem merge_assoc (e f g : ParseError ι) : (e.merge f).merge g = e.merge (f.merge g) := by
  have hfg := length_merge f g
  rcases Nat.lt_trichotomy (Cursor.length f.position) (Cursor.length e.position) with h | h | h
  · rw [merge_of_further h, merge_of_further (e := e) (by omega)]
  · rw [merge_of_level h]
    rcases Nat.lt_trichotomy (Cursor.length g.position) (Cursor.length f.position) with h' | h' | h'
    · have hg : Cursor.length g.position < Cursor.length e.position := by omega
      rw [merge_of_further h', merge_of_further hg]
      exact merge_of_further hg
    · rw [merge_of_level h', merge_of_level (f := f.add g) h, ← add_assoc]
      exact merge_of_level (h'.trans h)
    · rw [merge_of_behind h', merge_of_level h]
      exact merge_of_behind (h ▸ h')
  · rw [merge_of_behind h]
    rcases Nat.lt_trichotomy (Cursor.length g.position) (Cursor.length f.position) with h' | h' | h'
    · rw [merge_of_further h']
    · rw [merge_of_behind (e := e) (by omega), merge_of_behind (by omega)]
    · rw [merge_of_behind h', merge_of_behind h, merge_of_behind (by omega)]

instance : Diagnostic (ParseError ι) ι where
  expected s d := new s [d]
  fatal s c := newFatal s c []
  position := position
  isFatal := isFatal
  merge := merge

/-- What was expected, as text. -/
def displayExpected (e : ParseError ι) : String :=
  "expected " ++ ", ".intercalate e.expected

/-- The cause alone if nothing was expected, and otherwise what was expected before the cause. -/
def display (e : ParseError ι) : String :=
  match e.cause, e.expected with
  | some c, [] => c.message
  | some c, _ :: _ => e.displayExpected ++ ": " ++ c.message
  | none, _ => e.displayExpected

/-- The error with its place, counted from one. -/
def displayAt (whole : ι) (e : ParseError ι) : String :=
  s!"char at position {e.offset whole + 1}, {e.display}"

/-- Errors are compared by the input they point at, their descriptors, and whether there is a
cause.  Which cause it is makes no difference. -/
instance [BEq ι] : BEq (ParseError ι) :=
  ⟨fun e f => e.position == f.position && e.expected == f.expected &&
    e.cause.isSome == f.cause.isSome⟩

end ParseError

end ParserAlgebra
