import ParserAlgebra.Proofs.Labelling
import ParserAlgebra.Proofs.SymbolRuns
import ParserAlgebra.Proofs.Unrolling

/-!
# Shortcuts for spans

A number of symbols, and a run of symbols that pass a test, can be read by a loop of their own or by
a repetition of the parser for one symbol.  The loop keeps no values and asks for no progress, and
what it skips it may skip in one step.  It comes out where the repetition comes out: both take as
many symbols as the list of what is left tells.

* `Parser.replicate_anySymbol`, `Parser.take_eq` — a number of symbols, by either loop.
* `Parser.gather_satisfy` — a run, as the matches of one symbol.
* `Parser.span_shortcuts_agree` — the shortcuts against the spans of the repetitions.
-/

set_option autoImplicit false

namespace ParserAlgebra.Parser

open Cursor (Suffix)

variable {ι σ : Type} [Cursor ι σ]

/-! ## A number of symbols -/

/-- Any symbols in turn are what is skipped, unless the input ends on the way. -/
theorem replicate_anySymbol (n : Nat) (s : ι) :
    replicate anySymbol n s =
      let r := (Cursor.advance n s).2
      if n ≤ (Cursor.toList s).length then .ok ((Cursor.toList s).take n, r)
      else .error (.new r ["more input"]) := by
  induction n generalizing s with
  | zero =>
      rw [Cursor.advance_zero]
      rfl
  | succ n ih =>
      cases hn : Cursor.next? s with
      | none =>
          -- Skipping ends here as well, so this is the place of the error.
          rw [replicate, anySymbol, hn, Cursor.toList_of_none hn, Cursor.advance_of_none hn]
          rfl
      | some p =>
          obtain ⟨x, t⟩ := p
          have hx : anySymbol s = .success x t := by rw [anySymbol, hn]
          rw [replicate, hx, Cursor.toList_of_some hn, Cursor.advance_succ_of_some hn]
          dsimp only
          rw [ih t, List.length_cons, List.take_succ_cons]
          dsimp only
          by_cases hle : n ≤ (Cursor.toList t).length
          · rw [if_pos hle, if_pos (Nat.succ_le_succ hle)]
            rfl
          · rw [if_neg hle, if_neg (by omega)]
            rfl

theorem take_eq (n : Nat) (s : ι) :
    take n s =
      let r := (Cursor.advance n s).2
      if n ≤ (Cursor.toList s).length then .success ⟨s, r⟩ r
      else .failure (.new r ["more input"]) s := by
  have hcount : (Cursor.advance n s).1 = n ↔ n ≤ (Cursor.toList s).length := by
    rw [Cursor.advance_fst]
    omega
  rw [take]
  dsimp only
  simp only [beq_iff_eq, hcount]
  rfl

/-- At the end of the input, and for no symbols at all, the repetition fails with an error of its
own, so both are left out. -/
theorem spanOf_times_anySymbol {n : Nat} {s : ι} (hn : n ≠ 0) (hs : Cursor.isEmpty s = false) :
    spanOf (times anySymbol n) s = take n s := by
  have hstart : ¬ (n == 0 || Cursor.isEmpty s) = true := by simp [hn, hs]
  rw [spanOf, times, if_neg hstart, replicate_anySymbol, take_eq]
  dsimp only
  by_cases hle : n ≤ (Cursor.toList s).length
  · rw [if_pos hle, if_pos hle]
    rfl
  · rw [if_neg hle, if_neg hle]
    rfl

/-- Where the symbols do not suffice, the input is read to its end. -/
theorem take_of_lt {n : Nat} {s : ι} (h : (Cursor.toList s).length < n) :
    ∃ r, Suffix r s ∧ Cursor.isEmpty r = true ∧ take n s = .failure (.new r ["more input"]) s := by
  refine ⟨(Cursor.advance n s).2, Cursor.suffix_advance n s, ?_, ?_⟩
  · exact Cursor.isEmpty_advance_iff.2 (Nat.le_of_lt h)
  · rw [take_eq]
    exact if_neg (Nat.not_le_of_lt h)

/-! ## Runs of symbols that pass a test -/

/-- The matches of one symbol are the run.  They end where no symbol passes, which is never
fatal. -/
theorem gather_satisfy (accepts : σ → Bool) (guard : String) (s : ι) :
    gather (satisfy accepts) guard s =
      let run := (Cursor.toList s).takeWhile accepts
      .ok (run, (Cursor.advance run.length s).2) := by
  fun_induction gather (satisfy accepts) guard s with
  | case1 s x t hx _ ih =>
      obtain ⟨hn, hpass⟩ := symbolWhere_eq_success_iff.1 hx
      rw [ih, Cursor.toList_of_some hn, List.takeWhile_cons_of_pos hpass]
      dsimp only
      rw [List.length_cons, Cursor.advance_succ_of_some hn, prepend]
  | case2 s x t hx hge => exact absurd (Shortens.symbolWhere _ _ hx) hge
  | case3 s e o hfail he =>
      obtain ⟨-, rfl, -⟩ := symbolWhere_eq_failure_iff.1 hfail
      cases he
  | case4 s e o hfail he =>
      obtain ⟨hrun, -, -⟩ := symbolWhere_eq_failure_iff.1 hfail
      rw [hrun]
      dsimp only
      rw [List.length_nil, Cursor.advance_zero]

section Runs

variable (accepts : σ → Bool) {s : ι} (hs : Cursor.length s < 2 ^ 64)

include hs

theorem spanOf_many_satisfy : spanOf (many (satisfy accepts)) s = takeWhile accepts s := by
  rw [spanOf, many, gather_satisfy, takeWhile_eq accepts hs]
  rfl

/-- The two fail alike but for what they expect. -/
theorem takeWhile1_sameButExpected :
    (takeWhile1 accepts s).SameButExpected (spanOf (many1 (satisfy accepts)) s) := by
  have hshort : (satisfy accepts : Parser ι (ParseError ι) σ).Shortens := .symbolWhere _ _
  rw [takeWhile1_eq accepts hs, spanOf]
  dsimp only
  cases h : satisfy accepts s with
  | failure e o =>
      obtain ⟨hrun, rfl, -⟩ := symbolWhere_eq_failure_iff.1 h
      rw [many1_of_failure h, hrun, List.length_nil, if_pos rfl]
      apply Outcome.SameButExpected.recoverable
      · rfl
      · rfl
      · rfl
  | success x t =>
      obtain ⟨hn, hx⟩ := symbolWhere_eq_success_iff.1 h
      rw [many1_of_success hshort h, gather_satisfy, Cursor.toList_of_some hn,
        List.takeWhile_cons_of_pos hx, List.length_cons, if_neg (Nat.succ_ne_zero _),
        Cursor.advance_succ_of_some hn]
      exact .success _ _

end Runs

/-- **The shortcuts agree with the repetitions.**  A number of symbols, if it is not zero and there
is input, comes out as the span of so many times any symbol does; where the input is too short for
it, both fail at its end for want of more input.  On input whose length fits in 64 bits a run that
may be empty comes out as the span of any number of symbols that pass the test does.  A run that may
not be empty comes out as the span of at least one of them does, or both fail recoverably at the
input with errors at the same place. -/
theorem span_shortcuts_agree (s : ι) :
    (∀ n, n ≠ 0 → Cursor.isEmpty s = false →
      take n s = spanOf (times anySymbol n) s ∧
      ((Cursor.toList s).length < n → ∃ r, Suffix r s ∧ Cursor.isEmpty r = true ∧
        take n s = .failure (.new r ["more input"]) s)) ∧
    (Cursor.length s < 2 ^ 64 → ∀ accepts : σ → Bool,
      takeWhile accepts s = spanOf (many (satisfy accepts)) s ∧
      (takeWhile1 accepts s).SameButExpected (spanOf (many1 (satisfy accepts)) s)) := by
  refine ⟨fun n hn hs => ⟨?_, take_of_lt⟩, fun hs accepts => ⟨?_, ?_⟩⟩
  · exact (spanOf_times_anySymbol hn hs).symm
  · exact (spanOf_many_satisfy accepts hs).symm
  · exact takeWhile1_sameButExpected accepts hs

/-- Four symbols of `éa,` are one too many for either loop, and its run ends at the comma.  Neither
finds a comma at the start. -/
theorem span_shortcuts_agree_noComma :
    (4 ≠ 0 ∧ Cursor.isEmpty (Text.ofString "éa,") = false ∧
      (Cursor.toList (Text.ofString "éa,")).length < 4 ∧
      (Text.ofString "éa,").size < 2 ^ 64) ∧
    (∃ r, Suffix r (Text.ofString "éa,") ∧ Cursor.isEmpty r = true ∧
      spanOf (times anySymbol 4) (Text.ofString "éa,") =
        .failure (.new r ["more input"]) (.ofString "éa,")) ∧
    spanOf (many (satisfy (· != ','))) (Text.ofString "éa,") =
      .success ⟨.ofString "éa,", .ofString ","⟩ (.ofString ",") ∧
    Outcome.SameButExpected
      (.failure (.new (Text.ofString "éa,") ["TakeWhileMN"]) (.ofString "éa,"))
      (spanOf (many1 (satisfy (· == ','))) (Text.ofString "éa,")) := by
  have hsome : Cursor.isEmpty (Text.ofString "éa,") = false := rfl
  have hlt : (Cursor.toList (Text.ofString "éa,")).length < 4 := by
    rw [Text.toList_eq]
    decide
  have hsize : (Text.ofString "éa,").size < 2 ^ 64 := by decide
  obtain ⟨htake, hrun⟩ := span_shortcuts_agree (Text.ofString "éa,")
  obtain ⟨hfour, hend⟩ := htake 4 (by decide) hsome
  obtain ⟨hmany, -⟩ := hrun hsize (· != ',')
  obtain ⟨-, hmany1⟩ := hrun hsize (· == ',')
  refine ⟨⟨by decide, hsome, hlt, hsize⟩, ?_, ?_, hmany1⟩
  · rw [← hfour]
    exact hend hlt
  · rw [← hmany]
    rfl

end ParserAlgebra.Parser
