import Mathlib.Algebra.Group.Nat.Defs
import ParserAlgebra.Proofs.Suffix
import ParserAlgebra.Primitive.Run

/-!
# Runs of symbols

A parser for a run stops at the first symbol that does not pass, at the bound, or at the end of the
input.  So it goes as far as skipping that many symbols goes, and what it leaves is told by the
symbols of its input alone.

* `Cursor.toList_advance`, `Cursor.advance_advance` — skipping symbols, by what is left.
* `Cursor.toList_span_advance` — the span of the symbols skipped.
* `Parser.symbolWhere_eq_success_iff`, `Parser.symbolWhere_eq_failure_iff` — one symbol that passes
  a test, or none.
* `Parser.takeRun_eq_advance` — a run is skipped.
* `Cursor.chars` — what is left, as characters.
* `Parser.takeWhile_eq`, `Parser.takeWhile1_eq`, `Parser.ofClass1_eq` — runs without a bound of
  their own.  On input whose length fits in 64 bits the largest count is no bound either.
-/

set_option autoImplicit false

namespace ParserAlgebra

variable {ι σ : Type} [Cursor ι σ]

namespace Cursor

/-- Every symbol takes up storage. -/
theorem length_toList_le (s : ι) : (toList s).length ≤ length s := by
  cases h : next? s with
  | none => simp [toList_of_none h]
  | some p =>
      obtain ⟨x, t⟩ := p
      have hlt := length_lt_of_next? h
      have hle := length_toList_le t
      rw [toList_of_some h, List.length_cons]
      omega
termination_by length s
decreasing_by exact hlt

/-! ## Skipping -/

theorem advance_zero (s : ι) : advance 0 s = (0, s) := by
  rw [advance_eq]
  rfl

theorem advance_of_none {s : ι} (h : next? s = none) (n : Nat) : advance n s = (0, s) := by
  rw [advance_eq]
  cases n with
  | zero => rfl
  | succ n => rw [advanceByNext, h]

theorem advance_succ_of_some {s t : ι} {x : σ} (h : next? s = some (x, t)) (n : Nat) :
    advance (n + 1) s = ((advance n t).1 + 1, (advance n t).2) := by
  rw [advance_eq, advanceByNext, h, advance_eq]

theorem advance_fst (n : Nat) (s : ι) : (advance n s).1 = min n (toList s).length := by
  induction n generalizing s with
  | zero => rw [advance_zero, Nat.zero_min]
  | succ n ih =>
      cases h : next? s with
      | none => rw [advance_of_none h, toList_of_none h, List.length_nil, Nat.min_zero]
      | some p =>
          obtain ⟨x, t⟩ := p
          rw [advance_succ_of_some h, toList_of_some h, List.length_cons, ih,
            Nat.add_min_add_right]

theorem toList_advance (n : Nat) (s : ι) : toList (advance n s).2 = (toList s).drop n := by
  induction n generalizing s with
  | zero => rw [advance_zero, List.drop_zero]
  | succ n ih =>
      cases h : next? s with
      | none => rw [advance_of_none h, toList_of_none h, List.drop_nil]
      | some p =>
          obtain ⟨x, t⟩ := p
          rw [advance_succ_of_some h, toList_of_some h, List.drop_succ_cons, ih]

theorem isEmpty_advance_iff {n : Nat} {s : ι} :
    isEmpty (advance n s).2 = true ↔ (toList s).length ≤ n := by
  rw [isEmpty_iff, ← toList_eq_nil_iff, toList_advance, List.drop_eq_nil_iff]

/-- Skipping some symbols and then some more is skipping them all. -/
theorem advance_advance (m n : Nat) (s : ι) :
    (advance n (advance m s).2).2 = (advance (m + n) s).2 := by
  induction m generalizing s with
  | zero => rw [advance_zero, Nat.zero_add]
  | succ m ih =>
      cases h : next? s with
      | none => rw [advance_of_none h, advance_of_none h, advance_of_none h]
      | some p =>
          obtain ⟨x, t⟩ := p
          have hsum : m + 1 + n = m + n + 1 := by omega
          rw [hsum, advance_succ_of_some h, advance_succ_of_some h, ih]

/-- Skipping more symbols than there are leads to the end. -/
theorem advance_min (n : Nat) (s : ι) :
    (advance (min n (toList s).length) s).2 = (advance n s).2 := by
  by_cases hle : n ≤ (toList s).length
  · rw [Nat.min_eq_left hle]
  · have hend : next? (advance (toList s).length s).2 = none := by
      rw [next?_eq_none_iff, ← isEmpty_iff]
      exact isEmpty_advance_iff.2 (Nat.le_refl _)
    have hmore : n = (toList s).length + (n - (toList s).length) := by omega
    rw [Nat.min_eq_right (by omega), hmore, ← advance_advance, advance_of_none hend]

theorem tail_eq_advance (s : ι) : tail s = (advance 1 s).2 := by
  cases h : next? s with
  | none =>
      rw [advance_of_none h, tail, h]
      rfl
  | some p =>
      obtain ⟨x, t⟩ := p
      rw [advance_succ_of_some h, advance_zero, tail, h]
      rfl

theorem toList_span_advance (n : Nat) (s : ι) :
    (⟨s, (advance n s).2⟩ : Span ι).toList = (toList s).take n := by
  have hsplit := (suffix_advance n s).toList_span
  rw [toList_advance] at hsplit
  exact List.append_cancel_right (hsplit.trans (List.take_append_drop n (toList s)).symm)

/-- The characters that are left. -/
def chars [Symbol σ] (s : ι) : List Char := (toList s).map Symbol.toChar

theorem length_chars [Symbol σ] (s : ι) : (chars s).length = (toList s).length :=
  List.length_map _

theorem chars_of_none [Symbol σ] {s : ι} (h : next? s = none) : chars s = [] := by
  rw [chars, toList_of_none h, List.map_nil]

theorem chars_of_some [Symbol σ] {s t : ι} {x : σ} (h : next? s = some (x, t)) :
    chars s = Symbol.toChar x :: chars t := by
  rw [chars, toList_of_some h, List.map_cons, chars]

theorem chars_advance [Symbol σ] (n : Nat) (s : ι) :
    chars (advance n s).2 = (chars s).drop n := by
  rw [chars, toList_advance, List.map_drop, chars]

theorem chars_span_advance [Symbol σ] (n : Nat) (s : ι) :
    chars (⟨s, (advance n s).2⟩ : Span ι) = (chars s).take n := by
  rw [chars, chars, ← List.map_take]
  exact congrArg (List.map Symbol.toChar) (toList_span_advance n s)

end Cursor

theorem Text.chars_eq (s : Text) : Cursor.chars s = s.chars := by
  rw [Cursor.chars, Text.toList_eq]
  exact List.map_id _

theorem Slice.chars_eq [Symbol σ] (s : Slice σ) : Cursor.chars s = s.items.map Symbol.toChar := by
  rw [Cursor.chars, Slice.toList_eq]

theorem AsciiText.chars_eq (s : AsciiText) :
    Cursor.chars s = s.slice.items.map Symbol.toChar := by
  rw [Cursor.chars, AsciiText.toList_eq]

namespace Parser

/-! ## Single symbols -/

theorem symbolWhere_eq_success_iff {descriptor : String} {accepts : σ → Bool} {s t : ι} {x : σ} :
    symbolWhere descriptor accepts s = .success x t ↔
      Cursor.next? s = some (x, t) ∧ accepts x = true := by
  constructor
  · intro h
    unfold symbolWhere at h
    split at h
    · rename_i hn
      split at h <;> cases h
      rename_i hx
      exact ⟨hn, hx⟩
    · cases h
  · rintro ⟨hn, hx⟩
    rw [symbolWhere, hn]
    exact if_pos hx

/-- No one symbol passes where no run of them begins. -/
theorem symbolWhere_eq_failure_iff {descriptor : String} {accepts : σ → Bool} {s o : ι}
    {e : ParseError ι} :
    symbolWhere descriptor accepts s = .failure e o ↔
      (Cursor.toList s).takeWhile accepts = [] ∧ e = .new s [descriptor] ∧ o = s := by
  constructor
  · intro h
    unfold symbolWhere at h
    split at h
    · rename_i x t hn
      rw [Cursor.toList_of_some hn]
      split at h <;> cases h
      rename_i hx
      exact ⟨List.takeWhile_cons_of_neg hx, rfl, rfl⟩
    · rename_i hn
      cases h
      rw [Cursor.toList_of_none hn]
      exact ⟨rfl, rfl, rfl⟩
  · rintro ⟨hrun, he, ho⟩
    subst he ho
    cases hn : Cursor.next? o with
    | none =>
        rw [symbolWhere, hn]
        rfl
    | some p =>
        obtain ⟨x, t⟩ := p
        have hx : ¬ accepts x = true := by
          intro hx
          rw [Cursor.toList_of_some hn, List.takeWhile_cons_of_pos hx] at hrun
          cases hrun
        rw [symbolWhere, hn]
        exact if_neg hx

/-! ## Runs -/

/-- A run is as many symbols as pass one after another, but not more than there may be. -/
theorem takeRun_eq_advance (accepts : σ → Bool) (limit : Nat) (s : ι) :
    takeRun accepts limit s =
      Cursor.advance (min limit ((Cursor.toList s).takeWhile accepts).length) s := by
  induction limit generalizing s with
  | zero => rw [takeRun, Nat.zero_min, Cursor.advance_zero]
  | succ limit ih =>
      cases h : Cursor.next? s with
      | none => rw [takeRun, h, Cursor.advance_of_none h]
      | some p =>
          obtain ⟨x, t⟩ := p
          rw [takeRun, h, Cursor.toList_of_some h]
          by_cases hx : accepts x = true
          · rw [List.takeWhile_cons_of_pos hx, List.length_cons, Nat.add_min_add_right,
              Cursor.advance_succ_of_some h, ← ih]
            exact if_pos hx
          · rw [List.takeWhile_cons_of_neg hx, List.length_nil, Nat.min_zero, Cursor.advance_zero]
            exact if_neg hx

theorem takeWhileBetween_eq (least most : Nat) (accepts : σ → Bool) (s : ι) :
    takeWhileBetween least most accepts s =
      let n := min most ((Cursor.toList s).takeWhile accepts).length
      if n < least then .failure (Diagnostic.expected s "TakeWhileMN") s
      else .success ⟨s, (Cursor.advance n s).2⟩ (Cursor.advance n s).2 := by
  have hcount : (Cursor.advance (min most ((Cursor.toList s).takeWhile accepts).length) s).1 =
      min most ((Cursor.toList s).takeWhile accepts).length := by
    have hle := (List.takeWhile_prefix (l := Cursor.toList s) accepts).length_le
    rw [Cursor.advance_fst]
    omega
  rw [takeWhileBetween, takeRun_eq_advance]
  dsimp only
  rw [hcount]

/-- On input whose length fits in 64 bits the bound of a run is never met. -/
theorem min_maxCount_run (accepts : σ → Bool) {s : ι} (hs : Cursor.length s < 2 ^ 64) :
    min maxCount ((Cursor.toList s).takeWhile accepts).length =
      ((Cursor.toList s).takeWhile accepts).length := by
  have hle := (List.takeWhile_prefix (l := Cursor.toList s) accepts).length_le
  have hlen := Cursor.length_toList_le s
  have hmax : maxCount = 2 ^ 64 - 1 := rfl
  omega

theorem takeWhile_eq (accepts : σ → Bool) {s : ι} (hs : Cursor.length s < 2 ^ 64) :
    takeWhile accepts s =
      let n := ((Cursor.toList s).takeWhile accepts).length
      .success ⟨s, (Cursor.advance n s).2⟩ (Cursor.advance n s).2 := by
  rw [takeWhile, takeWhileBetween_eq]
  dsimp only
  rw [min_maxCount_run accepts hs]
  exact if_neg (Nat.not_lt_zero _)

theorem takeWhile1_eq (accepts : σ → Bool) {s : ι} (hs : Cursor.length s < 2 ^ 64) :
    takeWhile1 accepts s =
      let n := ((Cursor.toList s).takeWhile accepts).length
      if n = 0 then .failure (.new s ["TakeWhileMN"]) s
      else .success ⟨s, (Cursor.advance n s).2⟩ (Cursor.advance n s).2 := by
  rw [takeWhile1, takeWhileBetween_eq]
  dsimp only
  rw [min_maxCount_run accepts hs]
  simp only [Nat.lt_one_iff]
  rfl

variable [Symbol σ]

theorem ofClass1_eq (k : CharClass) {s : ι} (hs : Cursor.length s < 2 ^ 64) :
    ofClass1 k s =
      let n := ((Cursor.toList s).takeWhile k.contains).length
      if n = 0 then .failure (.new s [k.descriptor]) s
      else .success ⟨s, (Cursor.advance n s).2⟩ (Cursor.advance n s).2 := by
  rw [ofClass1, label, takeWhile1_eq k.contains hs]
  dsimp only
  by_cases hn : ((Cursor.toList s).takeWhile k.contains).length = 0
  · rw [if_pos hn, if_pos hn]
    rfl
  · rw [if_neg hn, if_neg hn]

end Parser

end ParserAlgebra
