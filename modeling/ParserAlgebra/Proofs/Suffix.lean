import ParserAlgebra.Span

/-!
# Suffixes

A place of the input is a *suffix* of another if taking symbols, one by one, leads from the second
to the first.  A cursor reaches nothing else, so a suffix always starts at the border of a symbol.

* `Suffix.length_le` — a suffix is never longer, and only the place itself has its length
  (`Suffix.eq_of_length_le`).
* `Suffix.total` — of two suffixes of one place, one is a suffix of the other, and the same one if
  they have equally much left (`Suffix.eq_of_length_eq`).
* `Suffix.length_lt_iff` — lengths of suffixes compare as numbers of symbols do, whatever the
  storage units are.
* `suffix_tail`, `suffix_advance` — skipping symbols leads to a suffix.
* `Suffix.dropUnits?_eq` — every suffix is found again by the storage in front of it.
* `Suffix.toList_span` — the span up to a suffix holds what lies in front of it.
-/

set_option autoImplicit false

namespace ParserAlgebra.Cursor

variable {ι σ : Type} [Cursor ι σ]

/-- `r` is what is left of `s` behind some of its symbols. -/
inductive Suffix : ι → ι → Prop
  | refl (s : ι) : Suffix s s
  | next {r s t : ι} {x : σ} (h : next? s = some (x, t)) (h' : Suffix r t) : Suffix r s

theorem suffix_of_next? {s t : ι} {x : σ} (h : next? s = some (x, t)) : Suffix t s :=
  .next h (.refl t)

namespace Suffix

theorem trans {r s t : ι} (h : Suffix r s) (h' : Suffix s t) : Suffix r t := by
  induction h' with
  | refl => exact h
  | next hn _ ih => exact .next hn ih

theorem length_le {r s : ι} (h : Suffix r s) : length r ≤ length s := by
  induction h with
  | refl => exact Nat.le_refl _
  | next hn _ ih => exact Nat.le_trans ih (Nat.le_of_lt (length_lt_of_next? hn))

theorem eq_of_length_le {r s : ι} (h : Suffix r s) (hl : length s ≤ length r) : r = s := by
  cases h with
  | refl => rfl
  | next hn h' =>
      have := h'.length_le
      have := length_lt_of_next? hn
      omega

theorem total {r t s : ι} (hr : Suffix r s) (ht : Suffix t s) : Suffix r t ∨ Suffix t r := by
  induction hr with
  | refl => exact Or.inr ht
  | next hn hr ih =>
      cases ht with
      | refl => exact Or.inl (.next hn hr)
      | next hn' ht =>
          rw [hn] at hn'
          cases hn'
          exact ih ht

/-- Suffixes of one place are told apart by how much they have left. -/
theorem eq_of_length_eq {r t s : ι} (hr : Suffix r s) (ht : Suffix t s)
    (h : length r = length t) : r = t := by
  rcases hr.total ht with hsuf | hsuf
  · exact hsuf.eq_of_length_le (Nat.le_of_eq h.symm)
  · exact (hsuf.eq_of_length_le (Nat.le_of_eq h)).symm

/-- What is left at a suffix is the end of what was left before it. -/
theorem exists_toList_eq {r s : ι} (h : Suffix r s) : ∃ xs, toList s = xs ++ toList r := by
  induction h with
  | refl => exact ⟨[], rfl⟩
  | @next s t x hn _ ih =>
      obtain ⟨xs, hxs⟩ := ih
      exact ⟨x :: xs, by rw [toList_of_some hn, hxs, List.cons_append]⟩

/-- Of two places in one buffer, the one with less storage left has fewer symbols left. -/
theorem eq_or_fewer {r s : ι} (h : Suffix r s) :
    r = s ∨ (length r < length s ∧
      (toList r).length < (toList s).length) := by
  induction h with
  | refl => exact .inl rfl
  | @next s t x hn _ ih =>
      have hlt := length_lt_of_next? hn
      rw [toList_of_some hn, List.length_cons]
      rcases ih with rfl | ⟨hlen, hsym⟩
      · exact .inr ⟨hlt, Nat.lt_succ_self _⟩
      · exact .inr ⟨by omega, by omega⟩

theorem length_lt_iff {r r' s : ι} (h : Suffix r s) (h' : Suffix r' s) :
    length r < length r' ↔
      (toList r).length < (toList r').length := by
  rcases h.total h' with hr | hr
  · rcases hr.eq_or_fewer with rfl | ⟨hlen, hsym⟩
    · simp
    · exact iff_of_true hlen hsym
  · rcases hr.eq_or_fewer with rfl | ⟨hlen, hsym⟩
    · simp
    · exact iff_of_false (by omega) (by omega)

end Suffix

/-- The place behind the first `n` storage units, unless there are fewer or they end inside a
symbol. -/
def dropUnits? (n : Nat) (s : ι) : Option ι :=
  if n = 0 then some s
  else
    match _h : next? s with
    | none => none
    | some (_, t) =>
      if length s - length t ≤ n then dropUnits? (n - (length s - length t)) t else none
termination_by length s
decreasing_by exact length_lt_of_next? _h

theorem dropUnits?_zero (s : ι) : dropUnits? 0 s = some s := by
  rw [dropUnits?, if_pos rfl]

theorem dropUnits?_of_next? {s t : ι} {x : σ} {n : Nat} (hn : next? s = some (x, t)) (h0 : n ≠ 0)
    (hle : length s - length t ≤ n) :
    dropUnits? n s = dropUnits? (n - (length s - length t)) t := by
  rw [dropUnits?, if_neg h0]
  split
  · rename_i hnone
    rw [hn] at hnone
    cases hnone
  · rename_i hsome
    rw [hn] at hsome
    cases hsome
    exact if_pos hle

/-- A suffix is what is left behind as much storage as lies in front of it. -/
theorem Suffix.dropUnits?_eq {r s : ι} (h : Suffix r s) :
    dropUnits? (length s - length r) s = some r := by
  induction h with
  | refl => rw [Nat.sub_self, dropUnits?_zero]
  | @next s t x hn hr ih =>
      have hle := hr.length_le
      have hlt := length_lt_of_next? hn
      have hunits : length s - length r - (length s - length t) = length t - length r := by omega
      rw [dropUnits?_of_next? hn (by omega) (by omega), hunits, ih]

/-- A span that stops at a suffix of its start holds the symbols in front of that suffix. -/
theorem Suffix.toList_span {r s : ι} (h : Suffix r s) :
    (⟨s, r⟩ : Span ι).toList ++ toList r = toList s := by
  induction h with
  | refl =>
      have hempty : (⟨r, r⟩ : Span ι).next? = none := by simp [Span.next?]
      rw [Span.toList, toList_of_none hempty, List.nil_append]
  | @next s t x hn hr ih =>
      have hle := hr.length_le
      have hlt := length_lt_of_next? hn
      have hsome : ¬ length s ≤ length r := by omega
      have hfirst : (⟨s, r⟩ : Span ι).next? = some (x, ⟨t, r⟩) := by
        rw [Span.next?, if_neg hsome, hn]
        rfl
      rw [Span.toList, toList_of_some hfirst, toList_of_some hn, List.cons_append]
      exact congrArg (x :: ·) ih

theorem suffix_tail (s : ι) : Suffix (tail s) s := by
  unfold tail
  cases h : next? s with
  | none => exact .refl s
  | some p => exact suffix_of_next? h

theorem suffix_advance (n : Nat) (s : ι) : Suffix (advance n s).2 s := by
  rw [advance_eq]
  induction n generalizing s with
  | zero => exact .refl s
  | succ n ih =>
      unfold advanceByNext
      split
      · exact .refl s
      · rename_i t hn
        exact .next hn (ih t)

end ParserAlgebra.Cursor
