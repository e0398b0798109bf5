import ParserAlgebra.Span

/-!
# Walking through input

A walk is a cursor that moves step by step, with named marks to come back to.  Each step has an
observation, and marks make it possible to compare places and to cut out the input between two of
them.
-/

set_option autoImplicit false

namespace ParserAlgebra

/-- A step of a walk. -/
inductive Step where
  | next
  | peek
  | isEmpty
  | advance (n : Nat)
  | save (mark : String)
  | load (mark : String)
  | samePlace (mark : String)
  | sameInput (mark : String)
  | span (mark : String)
deriving DecidableEq, Repr

/-- What a step shows. -/
inductive Observation (ι σ : Type) where
  | nothing
  | symbol (x : Option σ)
  | truth (b : Bool)
  | number (n : Nat)
  | span (s : Span ι)

/-- Where a walk is, and its marks. -/
structure Walk (ι : Type) where
  here : ι
  marks : List (String × ι)

namespace Walk

variable {ι σ : Type} [Cursor ι σ]

/-- The place of a mark.  A mark that was never set is where the walk is. -/
def mark (w : Walk ι) (name : String) : ι := (w.marks.lookup name).getD w.here

/-- One step: what it shows, and the walk after it. -/
def step [BEq ι] (w : Walk ι) : Step → Observation ι σ × Walk ι
  | .next =>
    match Cursor.next? w.here with
    | none => (.symbol none, w)
    | some (x, t) => (.symbol (some x), ⟨t, w.marks⟩)
  | .peek => (.symbol (Cursor.peek? w.here), w)
  | .isEmpty => (.truth (Cursor.isEmpty w.here), w)
  | .advance n =>
    let (k, t) := Cursor.advance n w.here
    (.number k, ⟨t, w.marks⟩)
  | .save m => (.nothing, ⟨w.here, (m, w.here) :: w.marks⟩)
  | .load m => (.nothing, ⟨w.mark m, w.marks⟩)
  | .samePlace m => (.truth (Cursor.samePlace w.here (w.mark m)), w)
  | .sameInput m => (.truth (w.here == w.mark m), w)
  | .span m => (.span ⟨w.mark m, w.here⟩, w)

/-- What the steps of a walk show, each with the length that is left after it. -/
def run [BEq ι] : List Step → Walk ι → List (Observation ι σ × Nat)
  | [], _ => []
  | t :: ts, w =>
    let (o, w) := w.step t
    (o, Cursor.length w.here) :: run ts w

/-- What a walk from the beginning of some input shows. -/
def trail [BEq ι] (s : ι) (steps : List Step) : List (Observation ι σ × Nat) := run steps ⟨s, []⟩

end Walk

end ParserAlgebra
