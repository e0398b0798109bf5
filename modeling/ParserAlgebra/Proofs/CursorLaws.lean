import ParserAlgebra.Cursor.Walk
import ParserAlgebra.Proofs.SpanEnds
import ParserAlgebra.Proofs.SymbolRuns

/-!
# The laws of reading

A walk reads its input by taking the next symbol, by looking at it, by asking whether there is one,
and by skipping symbols.  These steps fit together in one way, however the input is stored: in
characters of several bytes, in a slice that skips in one step, or between the two ends of a span
that need not belong together.

* `Walk.shows`, `Walk.after` — what a step shows, and where steps lead.
* `Walk.Lawful` — how the steps of a walk fit together, given the symbols that are left.
* `Walk.after_replicate_next` — taking symbols one by one leads where skipping them leads.
* `Walk.lawful` — the laws follow from those of `Cursor`, in every state of a walk.
* `Walk.lawful_on_every_input` — texts, slices, and spans of anything that can be read.
-/

set_option autoImplicit false

namespace ParserAlgebra

variable {ι σ : Type}

namespace Walk

section Laws

variable [Cursor ι σ] [BEq ι]

/-- What a step shows. -/
def shows (w : Walk ι) (t : Step) : Observation ι σ := (w.step t).1

/-- The walk after some steps. -/
def after (w : Walk ι) (steps : List Step) : Walk ι := steps.foldl (fun w t => (w.step t).2) w

/-- How the steps of a walk fit together at a place where `xs` are the symbols that are left. -/
structure Lawful (w : Walk ι) (xs : List σ) : Prop where
  /-- Taking symbols comes to an end, and these are they. -/
  yields : Cursor.Yields w.here xs
  next_iff : w.shows .next = .symbol none ↔ w.shows .isEmpty = .truth true
  isEmpty_iff : w.shows .isEmpty = .truth true ↔ Cursor.length w.here = 0
  /-- At the end nothing moves. -/
  stays (h : w.shows .next = .symbol none) : w.after [.next] = w
  shortens {x : σ} (h : w.shows .next = .symbol (some x)) :
    Cursor.length (w.after [.next]).here < Cursor.length w.here
  peek_shows : w.shows .peek = w.shows .next
  peek_stays : w.after [.peek] = w
  /-- Skipping counts the symbols that it skips, and there may be fewer than asked for. -/
  advance_shows (n : Nat) : w.shows (.advance n) = .number (min n xs.length)
  /-- Skipping leads where taking the symbols one by one leads. -/
  advance_leads (n : Nat) :
    w.after [.advance n] = w.after (List.replicate (min n xs.length) .next)
  /-- So it does if it is asked for more than there are. -/
  advance_leads_beyond (n : Nat) : w.after [.advance n] = w.after (List.replicate n .next)
  /-- A way of skipping of its own makes no difference. -/
  advance_byNext (n : Nat) : Cursor.advance n w.here = advanceByNext Cursor.next? n w.here
  /-- Skipping twice leads where skipping all at once leads. -/
  advance_twice (m n : Nat) : w.after [.advance m, .advance n] = w.after [.advance (m + n)]
  /-- It also skips as many symbols in total. -/
  advance_total (m n : Nat) : ∃ k l, w.shows (.advance m) = .number k ∧
    (w.after [.advance m]).shows (.advance n) = .number l ∧
    w.shows (.advance (m + n)) = .number (k + l)

theorem step_next_of_none {w : Walk ι} (h : Cursor.next? w.here = none) :
    w.step .next = (.symbol none, w) := by
  rw [step, h]

theorem step_next_of_some {w : Walk ι} {t : ι} {x : σ} (h : Cursor.next? w.here = some (x, t)) :
    w.step .next = (.symbol (some x), ⟨t, w.marks⟩) := by
  rw [step, h]

theorem after_advance (w : Walk ι) (n : Nat) :
    w.after [.advance n] = ⟨(Cursor.advance n w.here).2, w.marks⟩ := rfl

theorem shows_advance (w : Walk ι) (n : Nat) :
    w.shows (.advance n) = .number (min n (Cursor.toList w.here).length) :=
  congrArg Observation.number (Cursor.advance_fst n w.here)

/-- Taking symbols one by one leads where skipping them leads. -/
theorem after_replicate_next (w : Walk ι) (n : Nat) :
    w.after (List.replicate n .next) = w.after [.advance n] := by
  induction n generalizing w with
  | zero =>
      rw [after_advance, Cursor.advance_zero]
      rfl
  | succ n ih =>
      show (w.step .next).2.after (List.replicate n .next) = _
      rw [ih, after_advance, after_advance]
      -- at the end neither of the two moves any more
      cases h : Cursor.next? w.here with
      | none => rw [step_next_of_none h, Cursor.advance_of_none h, Cursor.advance_of_none h]
      | some p =>
          obtain ⟨x, t⟩ := p
          rw [step_next_of_some h, Cursor.advance_succ_of_some h]

theorem shows_next_iff {w : Walk ι} :
    w.shows .next = .symbol none ↔ Cursor.next? w.here = none := by
  cases h : Cursor.next? w.here with
  | none => simp [shows, step_next_of_none h]
  | some p => simp [shows, step_next_of_some (x := p.1) (t := p.2) h]

theorem shows_isEmpty_iff {w : Walk ι} :
    w.shows .isEmpty = .truth true ↔ Cursor.length w.here = 0 := by
  show Observation.truth (Cursor.isEmpty w.here) = .truth true ↔ _
  rw [Observation.truth.injEq, Cursor.isEmpty_iff]

theorem shows_peek (w : Walk ι) : w.shows .peek = w.shows .next := by
  show Observation.symbol (Cursor.peek? w.here) = _
  cases h : Cursor.next? w.here with
  | none => simp [shows, step_next_of_none h, Cursor.peek?, h]
  | some p => simp [shows, step_next_of_some (x := p.1) (t := p.2) h, Cursor.peek?, h]

theorem length_after_next_lt {w : Walk ι} {x : σ} (h : w.shows .next = .symbol (some x)) :
    Cursor.length (w.after [.next]).here < Cursor.length w.here := by
  cases hnext : Cursor.next? w.here with
  | none =>
      rw [shows_next_iff.2 hnext] at h
      cases h
  | some p =>
      obtain ⟨y, t⟩ := p
      show Cursor.length (w.step .next).2.here < _
      rw [step_next_of_some hnext]
      exact Cursor.length_lt_of_next? hnext

theorem after_advance_advance (w : Walk ι) (m n : Nat) :
    w.after [.advance m, .advance n] = w.after [.advance (m + n)] := by
  show (w.after [.advance m]).after [.advance n] = _
  rw [after_advance, after_advance, after_advance, Cursor.advance_advance]

/-- Behind the symbols that were skipped there are the others. -/
theorem length_toList_after_advance (w : Walk ι) (n : Nat) :
    (Cursor.toList (w.after [.advance n]).here).length = (Cursor.toList w.here).length - n := by
  rw [after_advance, Cursor.toList_advance, List.length_drop]

/-- Wherever a walk has got to, its steps fit together. -/
theorem lawful (w : Walk ι) : w.Lawful (Cursor.toList w.here) where
  yields := Cursor.yields_toList w.here
  next_iff := by rw [shows_next_iff, shows_isEmpty_iff, Cursor.next?_eq_none_iff]
  isEmpty_iff := shows_isEmpty_iff
  stays h := congrArg Prod.snd (step_next_of_none (shows_next_iff.1 h))
  shortens h := length_after_next_lt h
  peek_shows := shows_peek w
  peek_stays := rfl
  advance_shows := shows_advance w
  advance_leads n := by
    rw [after_replicate_next, after_advance, after_advance, Cursor.advance_min]
  advance_leads_beyond n := (after_replicate_next w n).symm
  advance_byNext n := Cursor.advance_eq n w.here
  advance_twice := after_advance_advance w
  advance_total m n := by
    refine ⟨_, _, shows_advance w m, shows_advance _ n, ?_⟩
    rw [shows_advance, length_toList_after_advance, Observation.number.injEq]
    omega

end Laws

/-- **Every kind of input can be relied on.**  A walk is anywhere in a text, in a slice of any symbols
or of ASCII characters, or in a span between any two places of an input that is itself a cursor, and
so in a span of spans.  There are no more symbols if and only if it says so, and if and only if no
length is left, and then taking one moves nothing; a symbol that is taken makes the length smaller;
looking shows what taking would, and moves nothing.  Skipping any number of symbols counts those that
are there, leads where taking them one by one leads, whether or not the input has a way of skipping
of its own, and skipping twice is skipping all at once. -/
theorem lawful_on_every_input :
    (∀ w : Walk Text, w.Lawful w.here.chars) ∧
    (∀ {σ : Type} [BEq σ] (w : Walk (Slice σ)), w.Lawful w.here.items) ∧
    (∀ w : Walk AsciiText, w.Lawful w.here.slice.items) ∧
    ∀ {ι σ : Type} [Cursor ι σ] [BEq σ] (w : Walk (Span ι)), w.Lawful w.here.toList := by
  refine ⟨fun w => ?_, fun w => ?_, fun w => ?_, fun w => w.lawful⟩
  · rw [← Text.toList_eq]
    exact w.lawful
  · rw [← Slice.toList_eq]
    exact w.lawful
  · rw [← AsciiText.toList_eq]
    exact w.lawful

/-- A walk in a span of a span.  The inner span is two bytes long and ends inside its second symbol,
and the outer one is as long. -/
def acrossTwice : Walk (Span (Span Text)) := ⟨⟨acrossAccent, ⟨.ofString "é", .ofString "é"⟩⟩, []⟩

/-- Two symbols can be taken, the second of them to its end.  Skipping as many as a machine word can
count comes to the same place, and nothing moves from there. -/
theorem lawful_on_every_input_acrossTwice :
    acrossTwice.Lawful ['a', 'é'] ∧
    acrossTwice.shows (.advance (2 ^ 64 - 1)) = .number 2 ∧
    acrossTwice.after [.advance (2 ^ 64 - 1)] = acrossTwice.after [.next, .next] ∧
    (acrossTwice.after [.next, .next]).after [.next] = acrossTwice.after [.next, .next] := by
  obtain ⟨-, -, -, hspan⟩ := lawful_on_every_input
  have hsymbols : acrossTwice.here.toList = ['a', 'é'] :=
    Cursor.Yields.toList_eq (.next rfl (.next rfl (.done rfl)))
  have hlawful := hspan acrossTwice
  rw [hsymbols] at hlawful
  exact ⟨hlawful, hlawful.advance_shows _, hlawful.advance_leads _, (hspan _).stays rfl⟩

end Walk

end ParserAlgebra
