import ParserAlgebra.ParseError
import ParserAlgebra.Cursor.Text

/-!
# Scripts that build errors

A script makes errors, merges them and compares them.  Errors are kept under names, and merging two
of them uses both up.
-/

set_option autoImplicit false

namespace ParserAlgebra

/-- The ways to make an error at a place. -/
inductive ErrorSource where
  | new (descriptors : List String)
  | newFatal (cause : String) (descriptors : List String)
  | fatal (cause : String)
  | rejection (reason : Rejection)
deriving DecidableEq, Repr

/-- An instruction of a script. -/
inductive ErrorStep (ι : Type) where
  | make (source : ErrorSource) (place : ι) (name : String)
  | add (a b name : String)
  | merge (a b name : String)
  | equal (a b : String)

/-- What an instruction gives: an error, or whether two errors are equal. -/
inductive ErrorResult (ι : Type) where
  | error (e : ParseError ι)
  | equal (b : Bool)
  /-- A name that stands for no error. -/
  | missing (name : String)

/-- The errors that are kept under names. -/
abbrev ErrorStore (ι : Type) : Type := List (String × ParseError ι)

namespace ErrorSource

variable {ι σ : Type} [Cursor ι σ]

/-- The error that is made at a place. -/
def raise (s : ι) : ErrorSource → ParseError ι
  | new ds => ParseError.new s ds
  | newFatal c ds => ParseError.newFatal s (.custom c) ds
  | fatal c => Diagnostic.fatal s (.custom c)
  | rejection r => r.raise s

end ErrorSource

namespace ErrorStore

variable {ι σ : Type} [Cursor ι σ]

/-- Takes two errors out of the store and puts one made of them back. -/
def combine (store : ErrorStore ι) (f : ParseError ι → ParseError ι → ParseError ι)
    (a b name : String) : ErrorResult ι × ErrorStore ι :=
  match store.lookup a with
  | none => (.missing a, store)
  | some e =>
    match (store.filter (·.1 != a)).lookup b with
    | none => (.missing b, store)
    | some g =>
      let e := f e g
      (.error e, (name, e) :: store.filter fun p => p.1 != a && p.1 != b)

/-- One instruction: its result, and the store after it. -/
def step [BEq ι] (store : ErrorStore ι) : ErrorStep ι → ErrorResult ι × ErrorStore ι
  | .make source s name =>
    let e := source.raise s
    (.error e, (name, e) :: store)
  | .add a b name => store.combine ParseError.add a b name
  | .merge a b name => store.combine ParseError.merge a b name
  | .equal a b =>
    match store.lookup a, store.lookup b with
    | some e, some f => (.equal (e == f), store)
    | none, _ => (.missing a, store)
    | _, none => (.missing b, store)

/-- The results of a script, from a store. -/
def run [BEq ι] : List (ErrorStep ι) → ErrorStore ι → List (ErrorResult ι)
  | [], _ => []
  | t :: ts, store =>
    let (r, store) := store.step t
    r :: run ts store

end ErrorStore

/-- The results of a script. -/
def ErrorStep.results {ι σ : Type} [Cursor ι σ] [BEq ι] (steps : List (ErrorStep ι)) :
    List (ErrorResult ι) :=
  ErrorStore.run steps []

end ParserAlgebra
