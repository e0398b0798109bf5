import ParserAlgebra.Proofs.SymbolRuns

/-!
# Bounded runs

A run goes on while its symbols pass a test, up to a bound and to the end of the input, and whether
it is long enough is asked only once it is over.  So it takes as many symbols as pass, or as many as
the bound allows, whichever is less.

* `Parser.countRun` — the loop with a counter that has room for the largest count and no more.
* `Parser.countRun_eq` — the counter always has room.
* `Parser.run_stops` — behind a run the input has ended, or goes on with a symbol that fails the
  test.
* `Parser.takeWhileBetween_takes_run` — runs between two bounds, and runs of a class.
-/

set_option autoImplicit false

namespace ParserAlgebra.Parser

open Cursor (Suffix)

variable {ι σ : Type} [Cursor ι σ]

/-! ## The counter -/

/-- A run of at most `most` symbols, of which `taken` are counted already.  There is no answer if
one more is to be counted and the counter is at the largest count. -/
def countRun (accepts : σ → Bool) (most taken : Nat) (s : ι) : Option (Nat × ι) :=
  if taken < most then
    match _h : Cursor.next? s with
    | some (x, t) =>
      if accepts x then
        if taken < maxCount then countRun accepts most (taken + 1) t else none
      else some (taken, s)
    | none => some (taken, s)
  else some (taken, s)
termination_by Cursor.length s
decreasing_by exact Cursor.length_lt_of_next? _h

/-- What is counted and what may still come add up to the bound, so there is room for every symbol
of the run if the bound is a count. -/
theorem countRun_eq (accepts : σ → Bool) {most taken rest : Nat} (hmost : most ≤ maxCount)
    (hsum : taken + rest = most) (s : ι) :
    countRun accepts most taken s =
      some (taken + (takeRun accepts rest s).1, (takeRun accepts rest s).2) := by
  induction rest generalizing taken s with
  | zero =>
      rw [countRun, if_neg (by omega), takeRun]
      rfl
  | succ rest ih =>
      rw [countRun, if_pos (by omega), takeRun]
      split
      · rename_i x t hn
        rw [hn]
        dsimp only
        by_cases hx : accepts x = true
        · have hcount : taken + 1 + (takeRun accepts rest t).1 =
              taken + ((takeRun accepts rest t).1 + 1) := by omega
          rw [if_pos hx, if_pos hx, if_pos (by omega), ih (by omega), hcount]
        · rw [if_neg hx, if_neg hx]
          rfl
      · rename_i hn
        rw [hn]
        rfl

/-! ## Runs of a test -/

section Runs

variable (accepts : σ → Bool) (s : ι)

/-- There is a run where the first symbol passes the test. -/
theorem run_ne_zero_iff :
    ((Cursor.toList s).takeWhile accepts).length ≠ 0 ↔
      ∃ x t, Cursor.next? s = some (x, t) ∧ accepts x = true := by
  cases hn : Cursor.next? s with
  | none => simp [Cursor.toList_of_none hn]
  | some p =>
      obtain ⟨x, t⟩ := p
      rw [Cursor.toList_of_some hn]
      by_cases hx : accepts x = true
      · simp [hx]
      · simp [hx]

/-- Behind a run the input has ended, or it goes on with a symbol that fails the test. -/
theorem run_stops (r : ι)
    (hr : r = (Cursor.advance ((Cursor.toList s).takeWhile accepts).length s).2) :
    Cursor.isEmpty r = true ∨ ∃ x t, Cursor.next? r = some (x, t) ∧ accepts x = false := by
  have hdrop : (Cursor.toList s).drop ((Cursor.toList s).takeWhile accepts).length =
      (Cursor.toList s).dropWhile accepts := by
    have hsplit := List.takeWhile_append_dropWhile (p := accepts) (l := Cursor.toList s)
    exact (congrArg (List.drop _) hsplit.symm).trans List.drop_left
  have hrest : Cursor.toList r = (Cursor.toList s).dropWhile accepts := by
    rw [hr, Cursor.toList_advance, hdrop]
  cases hn : Cursor.next? r with
  | none =>
      left
      rw [Cursor.isEmpty_iff, ← Cursor.next?_eq_none_iff, hn]
  | some p =>
      obtain ⟨x, t⟩ := p
      have hhead := List.head?_dropWhile_not accepts (Cursor.toList s)
      rw [← hrest, Cursor.toList_of_some hn] at hhead
      exact .inr ⟨x, t, rfl, hhead⟩

variable {accepts s} {least most : Nat}

theorem takeWhileBetween_of_le
    (h : least ≤ min most ((Cursor.toList s).takeWhile accepts).length) :
    takeWhileBetween least most accepts s =
      let r := (Cursor.advance (min most ((Cursor.toList s).takeWhile accepts).length) s).2
      .success ⟨s, r⟩ r := by
  rw [takeWhileBetween_eq]
  exact if_neg (by omega)

theorem takeWhileBetween_of_lt
    (h : min most ((Cursor.toList s).takeWhile accepts).length < least) :
    takeWhileBetween least most accepts s = .failure (.new s ["TakeWhileMN"]) s := by
  rw [takeWhileBetween_eq]
  exact if_pos h

theorem takeWhileBetween_eq_success_iff {u : Span ι} {r : ι} :
    takeWhileBetween least most accepts s = .success u r ↔
      least ≤ min most ((Cursor.toList s).takeWhile accepts).length ∧
        r = (Cursor.advance (min most ((Cursor.toList s).takeWhile accepts).length) s).2 ∧
        u = ⟨s, r⟩ := by
  constructor
  · intro h
    rcases Nat.lt_or_ge (min most ((Cursor.toList s).takeWhile accepts).length) least with hlt | hle
    · rw [takeWhileBetween_of_lt hlt] at h
      cases h
    · rw [takeWhileBetween_of_le hle] at h
      cases h
      exact ⟨hle, rfl, rfl⟩
  · rintro ⟨hle, rfl, rfl⟩
    exact takeWhileBetween_of_le hle

end Runs

/-! ## Runs of a class -/

section Classes

variable [Symbol σ] (k : CharClass) {s : ι} (hs : Cursor.length s < 2 ^ 64)

include hs

theorem ofClass_eq :
    ofClass k s =
      let r := (Cursor.advance ((Cursor.toList s).takeWhile k.contains).length s).2
      .success ⟨s, r⟩ r :=
  takeWhile_eq k.contains hs

theorem ofClass1_succeeds_iff :
    (∃ u r, ofClass1 k s = .success u r) ↔
      ∃ x t, Cursor.next? s = some (x, t) ∧ k.contains x = true := by
  rw [← run_ne_zero_iff, ofClass1_eq k hs]
  dsimp only
  split
  · rename_i hzero
    simp [hzero]
  · rename_i hne
    exact iff_of_true ⟨_, _, rfl⟩ hne

/-- Whether or not a run of a class may be empty, behind it the class is left. -/
theorem class_run_stops {u : Span ι} {r : ι}
    (h : ofClass k s = .success u r ∨ ofClass1 k s = .success u r) :
    Cursor.isEmpty r = true ∨ ∃ x t, Cursor.next? r = some (x, t) ∧ k.contains x = false := by
  apply run_stops k.contains s
  rcases h with h | h
  · rw [ofClass_eq k hs] at h
    cases h
    rfl
  · rw [ofClass1_eq k hs] at h
    dsimp only at h
    split at h <;> cases h
    rfl

end Classes

/-- **A bounded run takes what passes, up to the bound.**  Let `n` be the number of symbols in front
of the first one that fails the test, or the bound if that is less.  The run succeeds if at least
`least` symbols are wanted and `n` is not less than that, also where `least` is above the bound or
the bound is zero.  It then takes `n` symbols and no more, and its span holds these; otherwise it
fails recoverably, with its error and its anchor at the input.  A counter for the largest count has
room throughout.  On input whose length fits in 64 bits, a run of a class that may be empty always
succeeds, and one that may not succeeds if the first symbol is of the class.  Both leave nothing, or
input that starts outside the class. -/
theorem takeWhileBetween_takes_run [Symbol σ] (s : ι) :
    (∀ (accepts : σ → Bool) (least most : Nat),
      let n := min most ((Cursor.toList s).takeWhile accepts).length
      ((∃ u r, takeWhileBetween least most accepts s = .success u r) ↔ least ≤ n) ∧
      (∀ u r, takeWhileBetween least most accepts s = .success u r →
        u = ⟨s, r⟩ ∧ Suffix r s ∧ u.toList = (Cursor.toList s).take n ∧
          Cursor.toList r = (Cursor.toList s).drop n) ∧
      (n < least →
        takeWhileBetween least most accepts s = .failure (.new s ["TakeWhileMN"]) s) ∧
      (most ≤ maxCount → countRun accepts most 0 s = some (takeRun accepts most s))) ∧
    (Cursor.length s < 2 ^ 64 → ∀ k : CharClass,
      (∃ u r, ofClass k s = .success u r) ∧
      ((∃ u r, ofClass1 k s = .success u r) ↔
        ∃ x t, Cursor.next? s = some (x, t) ∧ k.contains x = true) ∧
      ∀ u r, ofClass k s = .success u r ∨ ofClass1 k s = .success u r →
        Cursor.isEmpty r = true ∨
          ∃ x t, Cursor.next? r = some (x, t) ∧ k.contains x = false) := by
  refine ⟨fun accepts least most => ⟨?_, fun u r h => ?_, takeWhileBetween_of_lt, fun hmost => ?_⟩,
    fun hs k => ⟨⟨_, _, ofClass_eq k hs⟩, ofClass1_succeeds_iff k hs,
      fun u r => class_run_stops k hs⟩⟩
  · constructor
    · rintro ⟨u, r, h⟩
      exact (takeWhileBetween_eq_success_iff.1 h).1
    · intro hle
      exact ⟨_, _, takeWhileBetween_of_le hle⟩
  · obtain ⟨-, rfl, rfl⟩ := takeWhileBetween_eq_success_iff.1 h
    exact ⟨rfl, Cursor.suffix_advance _ _, Cursor.toList_span_advance _ _,
      Cursor.toList_advance _ _⟩
  · rw [countRun_eq accepts hmost (Nat.zero_add most), Nat.zero_add]

/-- Two and three of the symbols in front of the comma of `éab,`, where four are not to be had, and
what the largest bound counts.  Of the bytes `ab1` the digit is left. -/
theorem takeWhileBetween_takes_run_noComma :
    takeWhileBetween 1 2 (· != ',') (Text.ofString "éab,") =
      .success ⟨.ofString "éab,", .ofString "b,"⟩ (.ofString "b,") ∧
    (⟨.ofString "éab,", .ofString "b,"⟩ : Span Text).toList = ['é', 'a'] ∧
    min 3 ((Cursor.toList (Text.ofString "éab,")).takeWhile (· != ',')).length < 4 ∧
    takeWhileBetween 4 3 (· != ',') (Text.ofString "éab,") =
      .failure (.new (.ofString "éab,") ["TakeWhileMN"]) (.ofString "éab,") ∧
    maxCount ≤ maxCount ∧
    countRun (· != ',') maxCount 0 (Text.ofString "éab,") = some (3, .ofString ",") ∧
    (latin1 "ab1").size < 2 ^ 64 ∧
    ofClass1 .alpha (latin1 "ab1") = .success ⟨latin1 "ab1", latin1 "1"⟩ (latin1 "1") ∧
    ∃ x t, Cursor.next? (latin1 "1") = some (x, t) ∧ CharClass.alpha.contains x = false := by
  have htext : Cursor.toList (Text.ofString "éab,") = "éab,".toList := Text.toList_eq _
  have hshort : min 3 ((Cursor.toList (Text.ofString "éab,")).takeWhile (· != ',')).length < 4 := by
    omega
  have hbytes : (latin1 "ab1").size < 2 ^ 64 := by decide
  have hone : ofClass1 .alpha (latin1 "ab1") =
      .success ⟨latin1 "ab1", latin1 "1"⟩ (latin1 "1") := rfl
  obtain ⟨hruns, -⟩ := takeWhileBetween_takes_run (Text.ofString "éab,")
  obtain ⟨-, hclasses⟩ := takeWhileBetween_takes_run (latin1 "ab1")
  obtain ⟨-, htwo, -, -⟩ := hruns (· != ',') 1 2
  obtain ⟨-, -, hfour, -⟩ := hruns (· != ',') 4 3
  obtain ⟨-, -, -, hcount⟩ := hruns (· != ',') 0 maxCount
  obtain ⟨-, -, hspan, -⟩ := htwo ⟨.ofString "éab,", .ofString "b,"⟩ (.ofString "b,") rfl
  obtain hend | houtside := (hclasses hbytes .alpha).2.2 _ _ (.inr hone)
  · cases hend
  · rw [htext] at hspan
    exact ⟨rfl, hspan, hshort, hfour hshort, Nat.le_refl _, hcount (Nat.le_refl _), hbytes, hone,
      houtside⟩

end ParserAlgebra.Parser
