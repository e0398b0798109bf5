import ParserAlgebra.Proofs.Severity
import ParserAlgebra.Proofs.Unrolling

/-!
# A number of times

One parser, a number of times, is a loop of its own.  Apart from what it refuses to begin with, it
does what a sequence of so many copies of the parser does.  So it goes along with a repetition that
ends well: for as long as there are matches it takes the first of them, and when it wants more than
there are it fails with the error at which the repetition gave up.

* `Parser.times_refuses`, `Parser.times_eq_sequence` — no times and empty input, and all else.
* `Parser.InTurn.split` — parsers in turn, cut in two.
* `Parser.times_within`, `Parser.times_beyond` — as many times as there are matches, and more.
* `Parser.times_counts` — what this comes to.
-/

set_option autoImplicit false

namespace ParserAlgebra.Parser

variable {ι σ ε α : Type}

/-! ## Parsers in turn, cut in two -/

theorem InTurn.split {ps qs : List (Parser ι ε α)} {s r : ι} {cs : List α}
    (h : InTurn (ps ++ qs) s cs r) :
    ∃ t, InTurn ps s (cs.take ps.length) t ∧ InTurn qs t (cs.drop ps.length) r := by
  induction ps generalizing s cs with
  | nil => exact ⟨s, .nil s, h⟩
  | cons p ps ih =>
      rw [List.cons_append] at h
      cases h with
      | cons hp hrest =>
          obtain ⟨t, hps, hqs⟩ := ih hrest
          exact ⟨t, .cons hp hps, hqs⟩

variable [Cursor ι σ] [Diagnostic ε ι] {p : Parser ι ε α} {s : ι}

/-! ## What is refused, and what is left -/

theorem times_refuses {n : Nat} (h : n = 0 ∨ Cursor.isEmpty s = true) :
    times p n s = .failure (Diagnostic.expected s "Count") s := by
  have hrefused : (n == 0 || Cursor.isEmpty s) = true := by
    simpa using h
  rw [times]
  exact if_pos hrefused

theorem times_eq_sequence {n : Nat} (hn : n ≠ 0) (hs : Cursor.isEmpty s = false) :
    times p n s = sequence (List.replicate n p) s := by
  have hstart : ¬ (n == 0 || Cursor.isEmpty s) = true := by
    simp [hn, hs]
  rw [times, if_neg hstart, replicate_eq_collect, sequence]

/-- The input may be empty behind any of the runs, but not in front of the first. -/
theorem inTurn_of_times {n : Nat} {as : List α} {r : ι} (h : times p n s = .success as r) :
    InTurn (List.replicate n p) s as r := by
  by_cases hrefused : n = 0 ∨ Cursor.isEmpty s = true
  · rw [times_refuses hrefused] at h
    cases h
  · rw [not_or, Bool.not_eq_true] at hrefused
    rw [times_eq_sequence hrefused.1 hrefused.2] at h
    exact sequence_eq_success_iff.1 h

/-! ## Along a repetition -/

section Along

variable {n : Nat} {vs : List α} {r : ι} (hs : Cursor.isEmpty s = false)
  (h : many p s = .success vs r)

include hs h

/-- There are enough matches.  The others can still be had behind what was taken. -/
theorem times_within (hn : n ≠ 0) (hle : n ≤ vs.length) :
    ∃ t, times p n s = .success (vs.take n) t ∧
      InTurn (List.replicate (vs.length - n) p) t (vs.drop n) r := by
  obtain ⟨hturn, -⟩ := inTurn_of_many h
  have hsplit : List.replicate vs.length p =
      List.replicate n p ++ List.replicate (vs.length - n) p := by
    rw [List.replicate_append_replicate, Nat.add_sub_cancel' hle]
  rw [hsplit] at hturn
  obtain ⟨t, hfirst, hrest⟩ := hturn.split
  rw [List.length_replicate] at hfirst hrest
  refine ⟨t, ?_, hrest⟩
  rw [times_eq_sequence hn hs]
  exact sequence_eq_success_iff.2 hfirst

/-- The run behind the last match is the last one, however many more are wanted. -/
theorem times_beyond (hlt : vs.length < n) :
    ∃ e o, p r = .failure e o ∧ Diagnostic.isFatal e = false ∧ times p n s = .failure e s := by
  obtain ⟨hturn, e, o, hend, he⟩ := inTurn_of_many h
  have hn : n ≠ 0 := Nat.ne_zero_of_lt hlt
  have hmore : n - vs.length = n - vs.length - 1 + 1 := by omega
  have hsplit : List.replicate n p =
      List.replicate vs.length p ++ p :: List.replicate (n - vs.length - 1) p := by
    rw [← List.replicate_succ, ← hmore, List.replicate_append_replicate,
      Nat.add_sub_cancel' (Nat.le_of_lt hlt)]
  have hfails : FailsInTurn (List.replicate n p) s e := by
    rw [hsplit]
    exact hturn.append_fails (.here hend _)
  refine ⟨e, o, hend, he, ?_⟩
  rw [times_eq_sequence hn hs]
  exact sequence_eq_failure_iff.2 ⟨hfails, rfl⟩

end Along

/-- **A number of times is a sequence, and goes along with a repetition.**  No times, and any number
of times on empty input, is a failure at the input, which is recoverable for errors that are so when
something is merely expected.  All else is the sequence of so many copies of the parser: it succeeds
with so many values, or fails at the input with the error of the first run that fails.  If the
parser, as often as it matches, leaves `r`, then up to that many times succeed with the first of the
same values, and more times fail with the recoverable error of the parser at `r`.  Nothing is asked
of the parser for this, since a repetition that ends well has met only matches that make the input
shorter. -/
theorem times_counts (p : Parser ι ε α) (s : ι) :
    (∀ n, n = 0 ∨ Cursor.isEmpty s = true →
      times p n s = .failure (Diagnostic.expected s "Count") s ∧
      (Diagnostic.Lenient ε → Diagnostic.isFatal (Diagnostic.expected s "Count" : ε) = false)) ∧
    (∀ n, n ≠ 0 → Cursor.isEmpty s = false →
      times p n s = sequence (List.replicate n p) s ∧
      (∀ as r, times p n s = .success as r → as.length = n ∧
        InTurn (List.replicate n p) s as r) ∧
      ∀ e o, times p n s = .failure e o → FailsInTurn (List.replicate n p) s e ∧ o = s) ∧
    (Cursor.isEmpty s = false → ∀ vs r, many p s = .success vs r →
      (∀ n, n ≠ 0 → n ≤ vs.length →
        ∃ t, times p n s = .success (vs.take n) t ∧
          InTurn (List.replicate (vs.length - n) p) t (vs.drop n) r) ∧
      ∀ n, vs.length < n →
        ∃ e o, p r = .failure e o ∧ Diagnostic.isFatal e = false ∧ times p n s = .failure e s) := by
  refine ⟨fun n h => ⟨times_refuses h, fun hε => hε.expected s "Count"⟩, fun n hn hs => ?_,
    fun hs vs r h => ⟨fun n => times_within hs h, fun n => times_beyond hs h⟩⟩
  have hsequence := times_eq_sequence (p := p) hn hs
  refine ⟨hsequence, fun as r h => ?_, fun e o h => ?_⟩
  · have hturn := inTurn_of_times h
    have hlength := hturn.length_eq
    rw [List.length_replicate] at hlength
    exact ⟨hlength, hturn⟩
  · rw [hsequence] at h
    obtain ⟨hfails, horigin⟩ := sequence_eq_failure_iff.1 h
    exact ⟨hfails, horigin.symm⟩

/-- In `éa,` there are two matches.  One of them can be had, the largest number is too many, and none
at all is refused.  The second symbol of `é!` is fatal for either loop. -/
theorem times_counts_noBang :
    Diagnostic.Lenient (ParseError Text) ∧
    times noBang 0 (.ofString "éa,") =
      .failure (.new (.ofString "éa,") ["Count"]) (.ofString "éa,") ∧
    Cursor.isEmpty (Text.ofString "éa,") = false ∧
    many noBang (.ofString "éa,") = .success ['é', 'a'] (.ofString ",") ∧
    (1 ≠ 0 ∧ 1 ≤ ['é', 'a'].length) ∧
    (∃ t, times noBang 1 (.ofString "éa,") = .success ['é'] t ∧
      InTurn [noBang] t ['a'] (.ofString ",")) ∧
    ['é', 'a'].length < maxCount ∧
    times noBang maxCount (.ofString "éa,") =
      .failure (.new (.ofString ",") ["Satisfy"]) (.ofString "éa,") ∧
    Cursor.isEmpty (Text.ofString "é!") = false ∧
    sequence [noBang, noBang] (.ofString "é!") =
      .failure (.newFatal (.ofString "!") (.custom "bang") []) (.ofString "é!") := by
  have hinput : Cursor.isEmpty (Text.ofString "éa,") = false := rfl
  have hbang : Cursor.isEmpty (Text.ofString "é!") = false := rfl
  have hmany : many noBang (.ofString "éa,") = .success ['é', 'a'] (.ofString ",") :=
    (many_eq_success_iff noBang_shortens).2 ⟨.cons rfl (.cons rfl (.nil _)), _, _, rfl, rfl⟩
  have hmore : ['é', 'a'].length < maxCount := by decide
  obtain ⟨hnone, -, halong⟩ := times_counts noBang (.ofString "éa,")
  obtain ⟨-, htwo, -⟩ := times_counts noBang (.ofString "é!")
  obtain ⟨hwithin, hbeyond⟩ := halong hinput _ _ hmany
  obtain ⟨e, o, hend, -, hfails⟩ := hbeyond maxCount hmore
  obtain ⟨hsequence, -, -⟩ := htwo 2 (by decide) hbang
  cases hend
  refine ⟨ParseError.lenient, (hnone 0 (.inl rfl)).1, hinput, hmany, by decide, ?_, hmore, hfails,
    hbang, ?_⟩
  · exact hwithin 1 (by decide) (by decide)
  · show sequence (List.replicate 2 noBang) _ = _
    rw [← hsequence]
    rfl

end ParserAlgebra.Parser
