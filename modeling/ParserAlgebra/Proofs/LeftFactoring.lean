import ParserAlgebra.Proofs.FurthestError
import ParserAlgebra.Proofs.Labelling

/-!
# Left factoring

Alternatives that begin with the same parser can have it taken out in front of the choice.  The
choice then runs it once and not for every alternative, and anchors its failures behind it; the pair
around the choice anchors them at the start again.  All that can be seen of this is how often the
error of the common parser is counted when it fails recoverably.

* `Parser.pair_of_success`, `Parser.pair_of_failure` — a pair, by the outcome of its first parser.
* `Parser.firstOf_pairs_of_success`, `Parser.firstOf_pairs_of_fatal`,
  `Parser.firstOf_pairs_of_declines` — the choice between the pairs, in each of the three cases.
* `Parser.firstOf_pairs_factors` — left factoring.
-/

set_option autoImplicit false

namespace ParserAlgebra

variable {ι σ ε α β : Type}

/-- What a pair makes of the outcome of its second parser, if the first one gave `a` and the pair
began at `s`. -/
def Outcome.pairedWith (a : α) (s : ι) : Outcome ι ε β → Outcome ι ε (Pair α β)
  | success b t => success ⟨a, b⟩ t
  | failure e _ => failure e s

theorem Outcome.SameButExpected.refl (x : Outcome ι (ParseError ι) α) : SameButExpected x x := by
  cases x with
  | success a r => exact .success a r
  | failure e o =>
      cases he : e.isFatal with
      | true => exact .fatal he o
      | false => exact .recoverable he he rfl o

/-- The error, put together from `n` of itself. -/
def ParseError.repeated (n : Nat) (e : ParseError ι) : ParseError ι :=
  ⟨e.position, (List.replicate n e.expected).flatten, e.cause⟩

theorem ParseError.repeated_one (e : ParseError ι) : e.repeated 1 = e := by
  simp [repeated]

theorem ParseError.merge_repeated [Cursor ι σ] (n : Nat) (e : ParseError ι) :
    (e.repeated n).merge e = e.repeated (n + 1) := by
  have hexpected : (List.replicate n e.expected).flatten ++ e.expected =
      (List.replicate (n + 1) e.expected).flatten := by
    rw [List.replicate_succ', List.flatten_append, List.flatten_singleton]
  have hcause : (e.cause.orElse fun _ => e.cause) = e.cause := by
    cases e.cause <;> rfl
  have hlevel : Cursor.length e.position = Cursor.length (e.repeated n).position := rfl
  rw [merge_of_level hlevel, add, repeated, repeated, hexpected, hcause]

namespace Parser

section Pairs

variable {p : Parser ι ε α} {s : ι}

theorem pair_of_success {a : α} {r : ι} (h : p s = .success a r) (q : Parser ι ε β) :
    pair p q s = (q r).pairedWith a s := by
  rw [pair, h]
  dsimp only
  cases q r <;> rfl

theorem pair_of_failure {e : ε} {o : ι} (h : p s = .failure e o) (q : Parser ι ε β) :
    pair p q s = .failure e s := by
  rw [pair, h]

variable [Diagnostic ε ι]

theorem Declines.pair {e : ε} (h : p.Declines s e) (q : Parser ι ε β) :
    (pair p q).Declines s e := by
  obtain ⟨o, hp, he⟩ := h
  exact ⟨s, pair_of_failure hp q, he⟩

/-! ## The common parser succeeds -/

/-- Each pair runs the first parser anew, and comes to the same place.  What was tried before is
handed on, so that the choice behind the first parser never is an empty one. -/
theorem tryEach_pairs_of_success {a : α} {r : ι} (h : p s = .success a r) (e : ε)
    (qs : List (Parser ι ε β)) :
    tryEach s (some e) (qs.map (pair p)) = (tryEach r (some e) qs).pairedWith a s := by
  induction qs generalizing e with
  | nil => rfl
  | cons q qs ih =>
      rw [List.map_cons, tryEach_cons, tryEach_cons, pair_of_success h]
      cases q r with
      | success b t => rfl
      | failure f o =>
          by_cases hf : Diagnostic.isFatal f = true
          · simp only [Outcome.pairedWith, if_pos hf]
          · simp only [Outcome.pairedWith, if_neg hf]
            exact ih _

theorem firstOf_pairs_of_success {a : α} {r : ι} (h : p s = .success a r)
    {qs : List (Parser ι ε β)} (hqs : qs ≠ []) :
    firstOf (qs.map (pair p)) s = pair p (firstOf qs) s := by
  cases qs with
  | nil => exact absurd rfl hqs
  | cons q qs =>
      rw [pair_of_success h, firstOf, firstOf, List.map_cons, tryEach_cons, tryEach_cons,
        pair_of_success h]
      cases q r with
      | success b t => rfl
      | failure f o =>
          by_cases hf : Diagnostic.isFatal f = true
          · simp only [Outcome.pairedWith, if_pos hf]
          · simp only [Outcome.pairedWith, if_neg hf]
            exact tryEach_pairs_of_success h f qs

/-! ## The common parser fails -/

theorem firstOf_pairs_of_fatal {e : ε} {o : ι} (h : p s = .failure e o)
    (he : Diagnostic.isFatal e = true) {qs : List (Parser ι ε β)} (hqs : qs ≠ []) :
    firstOf (qs.map (pair p)) s = .failure e s := by
  cases qs with
  | nil => exact absurd rfl hqs
  | cons q qs =>
      have hpair := pair_of_failure h q
      have hfirst : ¬ (pair p q).GivesUp s := by
        rintro ⟨f, t, hf, hrec⟩
        cases hpair.symm.trans hf
        rw [he] at hrec
        cases hrec
      rw [firstOf, List.map_cons, tryEach_of_not_givesUp hfirst, hpair]

end Pairs

section Declines

variable [Cursor ι σ] {p : Parser ι (ParseError ι) α} {s : ι} {e : ParseError ι}
  (h : p.Declines s e)

include h

/-- Every pair fails with the one error, which is equally far on as itself. -/
theorem tryEach_pairs_of_declines (n : Nat) (qs : List (Parser ι (ParseError ι) β)) :
    tryEach s (some (e.repeated n)) (qs.map (pair p)) =
      .failure (e.repeated (n + qs.length)) s := by
  induction qs generalizing n with
  | nil => rfl
  | cons q qs ih =>
      have hlength : n + (q :: qs).length = n + 1 + qs.length := by
        rw [List.length_cons]
        omega
      rw [List.map_cons, tryEach_of_declines (h.pair q), hlength, ← ih (n + 1),
        ← ParseError.merge_repeated n e]
      rfl

theorem firstOf_pairs_of_declines {qs : List (Parser ι (ParseError ι) β)} (hqs : qs ≠ []) :
    firstOf (qs.map (pair p)) s = .failure (e.repeated qs.length) s := by
  cases qs with
  | nil => exact absurd rfl hqs
  | cons q qs =>
      have hrest := tryEach_pairs_of_declines h 1 qs
      rw [e.repeated_one, Nat.add_comm 1] at hrest
      rw [firstOf, List.map_cons, tryEach_of_declines (h.pair q)]
      exact hrest

end Declines

variable [Cursor ι σ]

/-- **Left factoring is sound.**  A parser that begins every alternative of a choice can be put in
front of it.  The two succeed with the same pair and leave the same rest, fail fatally with the same
error, or fail recoverably at the same input with errors at the same place.  If the common parser
succeeds on the input, there is no difference at all.  If it fails recoverably, its error is counted
once in front of the choice, and once for each alternative within. -/
theorem firstOf_pairs_factors (p : Parser ι (ParseError ι) α)
    {qs : List (Parser ι (ParseError ι) β)} (hqs : qs ≠ []) (s : ι) :
    Outcome.SameButExpected (firstOf (qs.map (pair p)) s) (pair p (firstOf qs) s) ∧
    (∀ a r, p s = .success a r → firstOf (qs.map (pair p)) s = pair p (firstOf qs) s) ∧
    ∀ e, p.Declines s e →
      firstOf (qs.map (pair p)) s = .failure (e.repeated qs.length) s ∧
      pair p (firstOf qs) s = .failure e s := by
  refine ⟨?_, fun a r h => firstOf_pairs_of_success h hqs, fun e h => ⟨?_, ?_⟩⟩
  · cases h : p s with
    | success a r =>
        rw [firstOf_pairs_of_success h hqs]
        exact .refl _
    | failure e o =>
        rw [pair_of_failure h]
        cases he : e.isFatal with
        | true =>
            rw [firstOf_pairs_of_fatal h he hqs]
            exact .refl _
        | false =>
            have hrepeated : (e.repeated qs.length).isFatal = false := he
            rw [firstOf_pairs_of_declines ⟨o, h, he⟩ hqs]
            exact .recoverable hrepeated he rfl s
  · exact firstOf_pairs_of_declines h hqs
  · obtain ⟨o, hp, -⟩ := h
    exact pair_of_failure hp _

/-- Two ways to go on, of which the second can get further. -/
def goesOn : List (Parser Text (ParseError Text) Char) := [char 'b', seqRight (char 'é') (char 'c')]

/-- Behind the first symbol of `aéd` the second way gets furthest, and behind that of `ab` the first
one succeeds.  On a comma the common parser fails recoverably, and on an exclamation mark fatally. -/
theorem firstOf_pairs_factors_goesOn :
    goesOn ≠ [] ∧
    noBang (.ofString "aéd") = .success 'a' (.ofString "éd") ∧
    firstOf (goesOn.map (pair noBang)) (.ofString "aéd") =
      .failure (.new (.ofString "d") ["Char(c)"]) (.ofString "aéd") ∧
    firstOf (goesOn.map (pair noBang)) (.ofString "ab") =
      .success ⟨'a', 'b'⟩ (.ofString "") ∧
    noBang.Declines (.ofString ",") (.new (.ofString ",") ["Satisfy"]) ∧
    firstOf (goesOn.map (pair noBang)) (.ofString ",") =
      .failure (.new (.ofString ",") ["Satisfy", "Satisfy"]) (.ofString ",") ∧
    Outcome.SameButExpected (firstOf (goesOn.map (pair noBang)) (.ofString "!"))
      (.failure (.newFatal (.ofString "!") (.custom "bang") []) (.ofString "!")) := by
  have hqs : goesOn ≠ [] := List.cons_ne_nil _ _
  have hfar : noBang (.ofString "aéd") = .success 'a' (.ofString "éd") := rfl
  have hdeclines : noBang.Declines (.ofString ",") (.new (.ofString ",") ["Satisfy"]) :=
    ⟨_, rfl, rfl⟩
  obtain ⟨-, hsuccess, -⟩ := firstOf_pairs_factors noBang hqs (.ofString "aéd")
  obtain ⟨-, hsuccess', -⟩ := firstOf_pairs_factors noBang hqs (.ofString "ab")
  obtain ⟨-, -, hrepeated⟩ := firstOf_pairs_factors noBang hqs (.ofString ",")
  obtain ⟨hfatal, -, -⟩ := firstOf_pairs_factors noBang hqs (.ofString "!")
  refine ⟨hqs, hfar, ?_, ?_, hdeclines, ?_, hfatal⟩
  · rw [hsuccess _ _ hfar]
    rfl
  · rw [hsuccess' _ _ rfl]
    rfl
  · exact (hrepeated _ hdeclines).1

end Parser

end ParserAlgebra
