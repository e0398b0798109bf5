import ParserAlgebra.Proofs.Scheme

/-!
# Labels change nothing but what is expected

A label puts new words in place of what a part expected.  The part may stand deep inside a tree,
where its error is merged with others, given up or handed on; still the label shows in nothing but
the descriptors of a recoverable error.  The reason is that the new error stays at the place of the
old one, so that it wins and loses against the same errors.

* `Context` — a tree with a hole, and `Context.plug`, which fills it.
* `ParseError.SameButExpected` — the errors that a label may exchange, and how they merge.
* `Context.parse_plug_label` — a labelled part in a context.
-/

set_option autoImplicit false

namespace ParserAlgebra

variable {ι σ ρ α β : Type}

/-! ## Contexts -/

/-- What the slots of a context are: the hole, for a tree with values of `β`, and trees that are
already there. -/
inductive Hole (ι σ ε β : Type) : Type → Type 1
  | here : Hole ι σ ε β β
  | filled {γ : Type} (g : Grammar ι σ ε γ) : Hole ι σ ε β γ

/-- Trees with values of `α` in which a tree with values of `β` is missing, in any number of
places. -/
abbrev Context (ι σ ε ρ β α : Type) : Type 1 := Scheme ι (Hole ι σ ε β) ρ α

/-- The trees for the slots, when `p` is put in the hole. -/
def Hole.put {ε : Type} (p : Grammar ι σ ε β) (γ : Type) : Hole ι σ ε β γ → Grammar ι σ ε γ
  | here => p
  | filled g => g

/-- The context with `p` in its hole. -/
def Context.plug {ε : Type} [Seed ρ ε ι] (C : Context ι σ ε ρ β α) (p : Grammar ι σ ε β) :
    Grammar ι σ ε α :=
  C.fill (Hole.put p)

/-! ## Errors -/

namespace ParseError

/-- The same error, or two recoverable ones at the same place. -/
structure SameButExpected (e f : ParseError ι) : Prop where
  position : e.position = f.position
  cause : e.cause = f.cause
  fatal : e.isFatal = true → e = f

namespace SameButExpected

theorem refl (e : ParseError ι) : SameButExpected e e := ⟨rfl, rfl, fun _ => rfl⟩

theorem isFatal_eq {e f : ParseError ι} (h : SameButExpected e f) : e.isFatal = f.isFatal :=
  congrArg Option.isSome h.cause

/-- Recoverable errors are told apart by their places. -/
theorem of_recoverable {e f : ParseError ι} (he : e.isFatal = false) (hf : f.isFatal = false)
    (h : e.position = f.position) : SameButExpected e f := by
  refine ⟨h, ?_, fun hfatal => ?_⟩
  · unfold isFatal at he hf
    rw [Option.isSome_eq_false_iff, Option.isNone_iff_eq_none] at he hf
    rw [he, hf]
  · rw [he] at hfatal
    cases hfatal

variable [Cursor ι σ]

theorem position_merge {e e' f f' : ParseError ι} (h : SameButExpected e f)
    (h' : SameButExpected e' f') : (e.merge e').position = (f.merge f').position := by
  unfold merge
  rw [h.position, h'.position]
  split
  · exact h'.position
  · split <;> exact h.position

/-- Combinators never look at what is expected. -/
theorem diagnostic_alike :
    Diagnostic.Alike (Eq : ι → ι → Prop)
      (SameButExpected : ParseError ι → ParseError ι → Prop) where
  isFatal h := h.isFatal_eq
  expected {s t} hst d := by
    subst hst
    exact refl _
  expectedEnd {s t} hst := by
    subst hst
    exact refl _
  relabel {e f} h d := of_recoverable rfl rfl h.position
  merge {e e' f f'} h h' he he' := by
    have hre : e.isFatal = false := he.recoverable lenient
    have hre' : e'.isFatal = false := he'.recoverable lenient
    have hrf : f.isFatal = false := h.isFatal_eq.symm.trans hre
    have hrf' : f'.isFatal = false := h'.isFatal_eq.symm.trans hre'
    exact of_recoverable (isFatal_merge hre hre') (isFatal_merge hrf hrf') (h.position_merge h')

end SameButExpected

end ParseError

/-! ## Outcomes -/

/-- The same outcome, or two recoverable failures at the same input whose errors point at the same
place. -/
inductive Outcome.SameButExpected :
    Outcome ι (ParseError ι) α → Outcome ι (ParseError ι) α → Prop
  | success (a : α) (r : ι) : SameButExpected (.success a r) (.success a r)
  | fatal {e : ParseError ι} (h : e.isFatal = true) (o : ι) :
      SameButExpected (.failure e o) (.failure e o)
  | recoverable {e f : ParseError ι} (he : e.isFatal = false) (hf : f.isFatal = false)
      (position : e.position = f.position) (o : ι) :
      SameButExpected (.failure e o) (.failure f o)

theorem Outcome.sameButExpected_of_alike {x y : Outcome ι (ParseError ι) α}
    (h : Outcome.Alike Eq ParseError.SameButExpected Eq x y) : SameButExpected x y := by
  cases h with
  | success ha hr =>
      subst ha hr
      exact .success _ _
  | @failure e f o u he ho =>
      subst ho
      cases hfatal : e.isFatal with
      | true =>
          cases he.fatal hfatal
          exact .fatal hfatal o
      | false => exact .recoverable hfatal (he.isFatal_eq.symm.trans hfatal) he.position o

/-- A label exchanges a recoverable error for one at the same place. -/
theorem Parser.label_alike [Cursor ι σ] (d : String) (p : Parser ι (ParseError ι) α) (s : ι) :
    Outcome.Alike Eq ParseError.SameButExpected Eq (p.label d s) (p s) := by
  unfold Parser.label
  cases p s with
  | success a r => exact .success rfl rfl
  | failure e o =>
      dsimp only
      split
      · exact .failure (.refl e) rfl
      · rename_i he
        refine .failure (.of_recoverable rfl (Bool.eq_false_iff.2 he) ?_) rfl
        rfl

/-- **A label is only seen in what a recoverable error expects.**  A tree with a labelled part and
the tree with the part itself give the same value and leave the same rest, or fail with the same
fatal error, or fail recoverably at the same input with errors at the same place. -/
theorem Context.parse_plug_label [Cursor ι σ] [Symbol σ] [Seed ρ (ParseError ι) ι]
    (C : Context ι σ (ParseError ι) ρ β α) (p : Grammar ι σ (ParseError ι) β) (d : String) (s : ι) :
    Outcome.SameButExpected ((C.plug (.label d p)).parse s) ((C.plug p).parse s) := by
  refine Outcome.sameButExpected_of_alike ?_
  refine Scheme.parse_alike ParseError.SameButExpected.diagnostic_alike (fun γ i t => ?_)
    (fun _ _ => .refl _) C s
  cases i with
  | here => exact Parser.label_alike d p.parse t
  | filled g => exact .refl .refl (g.parse t)

/-- A letter, or else a `b`. -/
def orElseB : Context Text Char (ParseError Text) Rejection Char Char :=
  .orElse (.slot .here) (.slot (.filled (.primitive (.char 'b'))))

/-- The label stands among the descriptors in the place of what it describes. -/
example : (orElseB.plug (.label "first" (.primitive (.char 'a')))).parse (.ofString "c") =
    .failure (.new (.ofString "c") ["first", "Char(b)"]) (.ofString "c") ∧
    (orElseB.plug (.primitive (.char 'a'))).parse (.ofString "c") =
      .failure (.new (.ofString "c") ["Char(a)", "Char(b)"]) (.ofString "c") :=
  ⟨rfl, rfl⟩

end ParserAlgebra
