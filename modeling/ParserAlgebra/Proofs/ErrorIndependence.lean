import ParserAlgebra.Proofs.Scheme
import ParserAlgebra.Trace

/-!
# Parsing does not depend on the error type

Combinators ask one thing of an error: whether it is fatal.  So of two trees of one scheme, with
leaves that differ in nothing but their errors, both read the same, whatever their error types
record, and however these merge what they record.

* `Diagnostic.Graded` — error types that are fatal exactly where they are told to be.
* `Outcome.SameButError` — equal outcomes, up to errors that are equally severe.
* `Scheme.parse_sameButError` — the outcomes of two trees of one scheme.
-/

set_option autoImplicit false

namespace ParserAlgebra

variable {ι σ ε₁ ε₂ α : Type}

/-! ## Severity -/

/-- Whatever is expected is recoverable, and so are its merges; whatever is raised as fatal is
fatal. -/
structure Diagnostic.Graded (ε : Type) {ι : Type} [Diagnostic ε ι] : Prop extends
    Diagnostic.Lenient ε where
  fatal (s : ι) (c : Cause) : isFatal (fatal s c : ε) = true

theorem ParseError.graded [Cursor ι σ] : Diagnostic.Graded (ParseError ι) where
  toLenient := ParseError.lenient
  fatal _ _ := rfl

theorem Trace.graded [Cursor ι σ] : Diagnostic.Graded (Trace ι) where
  expected _ _ := rfl
  needMoreInput _ := rfl
  expectedEnd _ := rfl
  merge he hf := Bool.or_eq_false_iff.2 ⟨he, hf⟩
  fatal _ _ := rfl

variable [Diagnostic ε₁ ι] [Diagnostic ε₂ ι]

/-- Errors of two types that are both fatal, or both recoverable. -/
def Diagnostic.EquallySevere (e : ε₁) (f : ε₂) : Prop := isFatal e = isFatal f

/-- Combinators keep errors equally severe. -/
theorem Diagnostic.equallySevere_alike (h₁ : Graded ε₁) (h₂ : Graded ε₂) :
    Diagnostic.Alike (Eq : ι → ι → Prop) (EquallySevere : ε₁ → ε₂ → Prop) where
  isFatal h := h
  expected {s t} _ d := (h₁.expected s d).trans (h₂.expected t d).symm
  expectedEnd {s t} _ := (h₁.expectedEnd s).trans (h₂.expectedEnd t).symm
  relabel _ d := (h₁.expected _ d).trans (h₂.expected _ d).symm
  merge {e e' f f'} h h' he he' := by
    -- what combinators merge is recoverable, here on the first side and so on the second
    have hmerge := h₁.merge (he.recoverable h₁.toLenient) (he'.recoverable h₁.toLenient)
    have hf : Diagnostic.isFatal f = false := h.symm.trans (he.recoverable h₁.toLenient)
    have hf' : Diagnostic.isFatal f' = false := h'.symm.trans (he'.recoverable h₁.toLenient)
    exact hmerge.trans (h₂.merge hf hf').symm

/-- The library's own refusals are equally severe in both types. -/
theorem Rejection.raise_equallySevere (h₁ : Diagnostic.Graded ε₁) (h₂ : Diagnostic.Graded ε₂)
    (s : ι) (x : Rejection) :
    Diagnostic.EquallySevere (Seed.raise s x : ε₁) (Seed.raise s x : ε₂) := by
  cases x with
  | needMoreInput => exact (h₁.needMoreInput s).trans (h₂.needMoreInput s).symm
  | expectedEnd => exact (h₁.expectedEnd s).trans (h₂.expectedEnd s).symm
  | expected d => exact (h₁.expected s d).trans (h₂.expected s d).symm
  | fatal c => exact (h₁.fatal s c).trans (h₂.fatal s c).symm

/-! ## Outcomes -/

/-- The same value with the same rest, or equally severe errors at the same input. -/
inductive Outcome.SameButError : Outcome ι ε₁ α → Outcome ι ε₂ α → Prop
  | success (a : α) (r : ι) : SameButError (.success a r) (.success a r)
  | failure {e : ε₁} {f : ε₂} (severity : Diagnostic.isFatal e = Diagnostic.isFatal f) (o : ι) :
      SameButError (.failure e o) (.failure f o)

theorem Outcome.sameButError_iff_alike {x : Outcome ι ε₁ α} {y : Outcome ι ε₂ α} :
    SameButError x y ↔ Outcome.Alike Eq Diagnostic.EquallySevere Eq x y := by
  constructor
  · intro h
    cases h with
    | success a r => exact .success rfl rfl
    | failure he o => exact .failure he rfl
  · intro h
    cases h with
    | success ha hr =>
        subst ha hr
        exact .success _ _
    | failure he ho =>
        subst ho
        exact .failure he _

/-- **The error type only affects errors.**  Two trees of one scheme whose parts differ in nothing
but their errors give the same value and leave the same rest, or fail with the same severity at the
same input. -/
theorem Scheme.parse_sameButError [Cursor ι σ] [Symbol σ] (h₁ : Diagnostic.Graded ε₁)
    (h₂ : Diagnostic.Graded ε₂) {Slot : Type → Type 1}
    {parts₁ : ∀ β : Type, Slot β → Grammar ι σ ε₁ β}
    {parts₂ : ∀ β : Type, Slot β → Grammar ι σ ε₂ β}
    (hparts : ∀ β (i : Slot β) s,
      Outcome.SameButError ((parts₁ β i).parse s) ((parts₂ β i).parse s))
    (T : Scheme ι Slot Rejection α) (s : ι) :
    Outcome.SameButError ((T.fill parts₁).parse s) ((T.fill parts₂).parse s) := by
  have hQ := Diagnostic.equallySevere_alike (ι := ι) h₁ h₂
  have hseed := Rejection.raise_equallySevere (ι := ι) h₁ h₂
  rw [Outcome.sameButError_iff_alike]
  refine T.parse_alike hQ (fun β i t => ?_) hseed s
  exact Outcome.sameButError_iff_alike.1 (hparts β i t)

/-- A part that reads a given letter. -/
inductive Letter : Type → Type 1
  | letter (c : Char) : Letter Char

namespace Letter

def plain (β : Type) : Letter β → Grammar Text Char (ParseError Text) β
  | letter c => .primitive (.char c)

/-- Fails with a record of the error in its place. -/
def traced (β : Type) : Letter β → Grammar Text Char (Trace Text) β
  | letter c => .mapError Trace.ofParseError (.primitive (.char c))

theorem sameButError (β : Type) (i : Letter β) (s : Text) :
    Outcome.SameButError ((plain β i).parse s) ((traced β i).parse s) := by
  cases i with
  | letter c =>
      show Outcome.SameButError (Parser.char c s)
        (Parser.mapError Trace.ofParseError (Parser.char c) s)
      unfold Parser.mapError
      cases Parser.char c s with
      | success x r => exact .success x r
      | failure e o =>
          refine .failure ?_ o
          rfl

end Letter

/-- Two letters, each an `a`, since a `b` is refused. -/
def twoNotB : Scheme Text Letter Rejection (List Char) :=
  .times (.orElse (.slot (.letter 'a'))
    (.tryMap (fun _ => .error (.fatal (.custom "b"))) (.slot (.letter 'b')))) 2

/-- A `b` is fatal and any other letter is not, with errors that merge and with errors that record
their merges. -/
theorem parse_sameButError_twoNotB :
    Diagnostic.Graded (ParseError Text) ∧ Diagnostic.Graded (Trace Text) ∧
    (twoNotB.fill Letter.plain).parse (.ofString "ab") =
      .failure (Diagnostic.fatal (.ofString "b") (.custom "b")) (.ofString "ab") ∧
    Outcome.SameButError ((twoNotB.fill Letter.plain).parse (.ofString "ab"))
      ((twoNotB.fill Letter.traced).parse (.ofString "ab")) ∧
    (twoNotB.fill Letter.plain).parse (.ofString "ac") =
      .failure (.new (.ofString "c") ["Char(a)", "Char(b)"]) (.ofString "ac") ∧
    Outcome.SameButError ((twoNotB.fill Letter.plain).parse (.ofString "ac"))
      ((twoNotB.fill Letter.traced).parse (.ofString "ac")) := by
  have h := Scheme.parse_sameButError ParseError.graded Trace.graded Letter.sameButError twoNotB
  exact ⟨ParseError.graded, Trace.graded, rfl, h (.ofString "ab"), rfl, h (.ofString "ac")⟩

end ParserAlgebra
