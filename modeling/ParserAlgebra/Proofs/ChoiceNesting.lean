import ParserAlgebra.Combinator.Nest
import ParserAlgebra.Proofs.Severity

/-!
# Nests of choices

Joined two at a time, the parsers of a list can be bracketed in many ways.  A choice sees nothing of
the brackets: it does what the choice among all its leaves does.

* `Parser.tryEach_leaves` — within a longer list of alternatives, the leaves of a nest can be tried
  as a nest.  The errors agree since merging is associative.
* `Parser.nestedChoice_eq_firstOf` — what this means for a choice by itself.
-/

set_option autoImplicit false

namespace ParserAlgebra.Parser

variable {ι σ ε α : Type}

theorem tryEach_cons [Diagnostic ε ι] (s : ι) (tried : Option ε) (p : Parser ι ε α)
    (ps : List (Parser ι ε α)) :
    tryEach s tried (p :: ps) =
      match p s with
      | .success a r => .success a r
      | .failure f o =>
        if Diagnostic.isFatal f then .failure f o
        else tryEach s (some (tried.elim f (Diagnostic.merge · f))) ps := by
  cases tried <;> rfl

/-- Only a fatal failure of a choice is anchored anywhere else than at its input. -/
theorem orElse_origin [Diagnostic ε ι] {p q : Parser ι ε α} {s o : ι} {e : ε}
    (h : orElse p q s = .failure e o) (he : ¬ Diagnostic.isFatal e = true) : o = s := by
  unfold orElse at h
  split at h
  · cases h
  · split at h
    · rename_i hfatal
      cases h
      exact absurd hfatal he
    · split at h
      · cases h
      · split at h
        · rename_i hfatal
          cases h
          exact absurd hfatal he
        · cases h
          rfl

variable [Cursor ι σ]

/-- Among alternatives that are tried in order, the leaves of a nest can be tried as a nest. -/
theorem tryEach_leaves (t : Nest (Parser ι (ParseError ι) α)) (s : ι)
    (tried : Option (ParseError ι)) (rest : List (Parser ι (ParseError ι) α)) :
    tryEach s tried (t.leaves ++ rest) = tryEach s tried (nestedChoice t :: rest) := by
  induction t generalizing tried rest with
  | leaf p => rfl
  | node l r ihl ihr =>
      have hnode : nestedChoice (.node l r) s = orElse (nestedChoice l) (nestedChoice r) s := rfl
      rw [Nest.leaves, List.append_assoc, ihl, tryEach_cons, tryEach_cons, hnode, orElse]
      cases nestedChoice l s with
      | success a t => rfl
      | failure e o =>
          by_cases he : Diagnostic.isFatal e = true
          · simp only [if_pos he]
          · simp only [if_neg he, ihr, tryEach_cons]
            cases nestedChoice r s with
            | success a t => rfl
            | failure f o =>
                by_cases hf : Diagnostic.isFatal f = true
                · simp only [if_pos hf]
                · have hmerged : ¬ Diagnostic.isFatal (Diagnostic.merge e f) = true := by
                    rw [Bool.not_eq_true] at he hf ⊢
                    exact ParseError.isFatal_merge he hf
                  simp only [if_neg hf, if_neg hmerged]
                  -- one by one `e` and `f` join what was tried before, as a nest they join first
                  cases tried with
                  | none => rfl
                  | some d => exact congrArg (tryEach s · rest) (congrArg some (d.merge_assoc e f))

theorem nestedChoice_node (l r : Nest (Parser ι (ParseError ι) α)) (s : ι) :
    nestedChoice (.node l r) s = firstOf (Nest.node l r).leaves s := by
  have hleaves := tryEach_leaves (.node l r) s none []
  rw [List.append_nil, tryEach_cons] at hleaves
  rw [firstOf, hleaves]
  cases h : nestedChoice (.node l r) s with
  | success a t => rfl
  | failure e o =>
      by_cases he : Diagnostic.isFatal e = true
      · simp only [if_pos he]
      · obtain rfl : o = s := orElse_origin h he
        simp only [if_neg he]
        rfl

theorem nestedChoice_of_two_le {t : Nest (Parser ι (ParseError ι) α)} (h : 2 ≤ t.leaves.length) :
    nestedChoice t = firstOf t.leaves := by
  cases t with
  | leaf p => exact absurd h (by simp [Nest.leaves])
  | node l r => exact funext (nestedChoice_node l r)

/-- A choice that is continued on the right is the choice of a nest. -/
theorem foldl_orElse [Diagnostic ε ι] (t : Nest (Parser ι ε α)) (ps : List (Parser ι ε α)) :
    ∃ t' : Nest (Parser ι ε α), t'.leaves = t.leaves ++ ps ∧
      nestedChoice t' = ps.foldl orElse (nestedChoice t) := by
  induction ps generalizing t with
  | nil => exact ⟨t, (List.append_nil _).symm, rfl⟩
  | cons p ps ih =>
      obtain ⟨t', hleaves, ht'⟩ := ih (.node t (.leaf p))
      refine ⟨t', ?_, ht'⟩
      rw [hleaves, Nest.leaves, Nest.leaves, List.append_assoc, List.singleton_append]

theorem firstOf_singleton [Diagnostic ε ι] {p : Parser ι ε α} {s : ι}
    (h : ∀ e o, p s = .failure e o → o = s) : firstOf [p] s = p s := by
  rw [firstOf, tryEach_cons]
  cases hp : p s with
  | success a r => rfl
  | failure e o =>
      obtain rfl : o = s := h e o hp
      by_cases he : Diagnostic.isFatal e = true
      · simp only [if_pos he]
      · simp only [if_neg he]
        rfl

/-- **Any nesting of choice is the same choice.**  A nest of at least two parsers does what the
choice among its leaves does: the same success, the same fatal failure with the input it came with,
or the same merged error at the input.  This goes for the balanced nest and for a choice continued
on the right.  The balanced choice of nothing is the empty choice, and that of one parser is the
choice among it alone wherever the parser anchors its failures at its input. -/
theorem nestedChoice_eq_firstOf :
    (∀ t : Nest (Parser ι (ParseError ι) α), 2 ≤ t.leaves.length →
      nestedChoice t = firstOf t.leaves) ∧
    (∀ ps : List (Parser ι (ParseError ι) α), 2 ≤ ps.length → balancedChoice ps = firstOf ps) ∧
    (∀ (p : Parser ι (ParseError ι) α) (ps : List (Parser ι (ParseError ι) α)), ps ≠ [] →
      ps.foldl orElse p = firstOf (p :: ps)) ∧
    (balancedChoice [] : Parser ι (ParseError ι) α) = firstOf [] ∧
    ∀ (p : Parser ι (ParseError ι) α) (s : ι), (∀ e o, p s = .failure e o → o = s) →
      balancedChoice [p] s = firstOf [p] s := by
  refine ⟨fun t => nestedChoice_of_two_le, fun ps hps => ?_, fun p ps hps => ?_, rfl,
    fun p s hp => ?_⟩
  · cases ps with
    | nil => cases hps
    | cons p ps =>
        have hleaves := Nest.leaves_balanced (p :: ps) (by simp)
        rw [balancedChoice, nestedChoice_of_two_le (by rwa [hleaves]), hleaves]
  · obtain ⟨t, hleaves, ht⟩ := foldl_orElse (.leaf p) ps
    have hlen : 2 ≤ t.leaves.length := by
      have hpos := List.length_pos_iff.2 hps
      rw [hleaves, Nest.leaves, List.length_append, List.length_singleton]
      omega
    have hchoice : nestedChoice (.leaf p) = p := rfl
    rw [hchoice] at ht
    rw [← ht, nestedChoice_of_two_le hlen, hleaves]
    rfl
  · have hbalanced : Nest.balanced [p] (by simp) = .leaf p := by rw [Nest.balanced]
    rw [firstOf_singleton hp, balancedChoice, hbalanced]
    rfl

/-- An `a`, and then the value of the given symbol. -/
def behindA (c : Char) : Parser Text (ParseError Text) Char := seqRight (char 'a') (char c)

/-- Three alternatives, of which the last two get equally far on `ab`. -/
def acOrAd : Nest (Parser Text (ParseError Text) Char) :=
  .node (.leaf (char 'é')) (.node (.leaf (behindA 'c')) (.leaf (behindA 'd')))

/-- The error of the last two on `ab`, and the balanced choice as one continued on the right. -/
theorem nestedChoice_eq_firstOf_acOrAd :
    2 ≤ acOrAd.leaves.length ∧
    nestedChoice acOrAd (.ofString "ab") =
      .failure ⟨.ofString "b", ["Char(c)", "Char(d)"], none⟩ (.ofString "ab") ∧
    balancedChoice acOrAd.leaves = [behindA 'c', behindA 'd'].foldl orElse (char 'é') ∧
    balancedChoice [behindA 'c'] (.ofString "ab") = firstOf [behindA 'c'] (.ofString "ab") := by
  obtain ⟨hnest, hbalanced, hright, -, hone⟩ := nestedChoice_eq_firstOf (ι := Text) (α := Char)
  have hlen : 2 ≤ acOrAd.leaves.length := by decide
  refine ⟨hlen, ?_, ?_, ?_⟩
  · rw [hnest _ hlen]
    rfl
  · rw [hbalanced _ hlen, hright _ _ (by simp)]
    rfl
  · refine hone _ _ fun e o h => ?_
    cases h
    rfl

end ParserAlgebra.Parser
