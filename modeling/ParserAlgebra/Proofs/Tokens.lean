import ParserAlgebra.Proofs.SequenceNesting
import ParserAlgebra.Proofs.SymbolRuns

/-!
# Tokens

A token is found symbol by symbol, with one cursor in the pattern and one in the input.  The two may
be of different kinds, since symbols are compared as characters.  So all that counts of a pattern is
the list of its characters: whether it is a prefix of the characters of the input.

* `Parser.behind?_eq_some_iff` — the input behind a run of symbols.
* `Parser.token_eq_success_iff`, `Parser.token_of_not_prefix` — the two ways a token can turn out.
* `Parser.inTurn_char_iff` — a run of symbols, read one by one.
* `Parser.token_matches_prefix` — tokens, and what they have in common with their symbols and with
  their parts.
-/

set_option autoImplicit false

namespace ParserAlgebra.Parser

open Cursor (chars Suffix)

variable {ι σ κ τ ε α β : Type}

section Outcomes

variable {p : Parser ι ε α} {s : ι}

theorem spanOf_eq_success_iff {u : Span ι} {r : ι} :
    spanOf p s = .success u r ↔ u = ⟨s, r⟩ ∧ ∃ a, p s = .success a r := by
  constructor
  · intro h
    unfold spanOf at h
    split at h <;> cases h
    rename_i hp
    exact ⟨rfl, _, hp⟩
  · rintro ⟨rfl, a, hp⟩
    rw [spanOf, hp]

theorem pair_eq_success_iff {q : Parser ι ε β} {v : Pair α β} {t : ι} :
    pair p q s = .success v t ↔ ∃ r, p s = .success v.left r ∧ q r = .success v.right t := by
  constructor
  · intro h
    unfold pair at h
    split at h
    · rename_i a r hp
      split at h <;> cases h
      rename_i hq
      exact ⟨r, hp, hq⟩
    · cases h
  · rintro ⟨r, hp, hq⟩
    rw [pair, hp]
    dsimp only
    rw [hq]

end Outcomes

variable [Cursor ι σ] [Symbol σ]

/-! ## Runs of symbols -/

theorem behind?_eq_some_iff [Symbol τ] {ys : List τ} {s r : ι} :
    behind? ys s = some r ↔
      ys.map Symbol.toChar <+: chars s ∧ r = (Cursor.advance ys.length s).2 := by
  induction ys generalizing s with
  | nil => simp [behind?, Cursor.advance_zero, eq_comm]
  | cons y ys ih =>
      rw [behind?]
      cases hn : Cursor.next? s with
      | none => simp [Cursor.chars_of_none hn]
      | some p =>
          obtain ⟨x, t⟩ := p
          dsimp only
          rw [Cursor.chars_of_some hn, List.map_cons, List.cons_prefix_cons, List.length_cons,
            Cursor.advance_succ_of_some hn, Symbol.same]
          by_cases hx : Symbol.toChar x = Symbol.toChar y
          · rw [if_pos (beq_iff_eq.2 hx), ih]
            simp [hx]
          · rw [if_neg (by simpa using hx)]
            simp [Ne.symm hx]

theorem append_prefix_iff {xs ys zs : List α} :
    xs ++ ys <+: zs ↔ xs <+: zs ∧ ys <+: zs.drop xs.length := by
  constructor
  · rintro ⟨ws, rfl⟩
    rw [List.append_assoc, List.drop_left]
    exact ⟨List.prefix_append _ _, List.prefix_append _ _⟩
  · rintro ⟨⟨ws, rfl⟩, h⟩
    rw [List.drop_left] at h
    exact (List.prefix_append_right_inj xs).2 h

/-- Parsers of one symbol each succeed in turn where the input begins with the symbols. -/
theorem inTurn_char_iff [Symbol τ] {ys : List τ} {s r : ι} :
    (∃ xs : List σ, InTurn (ε := ParseError ι) (ys.map char) s xs r) ↔ behind? ys s = some r := by
  induction ys generalizing s with
  | nil =>
      constructor
      · rintro ⟨xs, h⟩
        cases h
        rfl
      · intro h
        cases h
        exact ⟨[], .nil _⟩
  | cons y ys ih =>
      rw [List.map_cons]
      constructor
      · rintro ⟨xs, h⟩
        cases h with
        | cons hy hrest =>
            obtain ⟨hn, hxy⟩ := symbolWhere_eq_success_iff.1 hy
            rw [behind?, hn]
            dsimp only
            rw [if_pos hxy]
            exact ih.1 ⟨_, hrest⟩
      · intro h
        unfold behind? at h
        split at h
        · rename_i x t hn
          split at h
          · rename_i hxy
            obtain ⟨xs, hrest⟩ := ih.2 h
            exact ⟨x :: xs, .cons (symbolWhere_eq_success_iff.2 ⟨hn, hxy⟩) hrest⟩
          · cases h
        · cases h

/-! ## Tokens -/

section Tokens

variable [Cursor κ τ] [Symbol τ] {pattern : κ} {s r : ι} {u : Span ι}

theorem token_eq_success_iff_behind? :
    token pattern s = .success u r ↔
      u = ⟨s, r⟩ ∧ behind? (Cursor.toList pattern) s = some r := by
  constructor
  · intro h
    unfold token at h
    split at h <;> cases h
    rename_i hr
    exact ⟨rfl, hr⟩
  · rintro ⟨rfl, hr⟩
    rw [token, hr]

theorem token_eq_success_iff :
    token pattern s = .success u r ↔
      u = ⟨s, r⟩ ∧ chars pattern <+: chars s ∧
        r = (Cursor.advance (chars pattern).length s).2 := by
  rw [token_eq_success_iff_behind?, behind?_eq_some_iff, Cursor.length_chars]
  exact Iff.rfl

theorem token_of_not_prefix (h : ¬ chars pattern <+: chars s) :
    token pattern s = .failure (.new s [s!"Token({Cursor.text pattern})"]) s := by
  have hnone : behind? (Cursor.toList pattern) s = none := by
    rw [Option.eq_none_iff_forall_ne_some]
    intro t ht
    exact h (behind?_eq_some_iff.1 ht).1
  rw [token, hnone]
  rfl

/-- A token holds its pattern, and the rest of the input is left. -/
theorem chars_of_token (h : token pattern s = .success u r) :
    Suffix r s ∧ chars u = chars pattern ∧ chars s = chars pattern ++ chars r := by
  obtain ⟨rfl, ⟨rest, hrest⟩, rfl⟩ := token_eq_success_iff.1 h
  refine ⟨Cursor.suffix_advance _ s, ?_, ?_⟩
  · rw [Cursor.chars_span_advance, ← hrest, List.take_left]
  · rw [Cursor.chars_advance, ← hrest, List.drop_left]

theorem token_iff_chars :
    token pattern s = .success u r ↔
      spanOf (sequence ((Cursor.toList pattern).map char)) s =
        (.success u r : Outcome ι (ParseError ι) (Span ι)) := by
  rw [token_eq_success_iff_behind?, spanOf_eq_success_iff, ← inTurn_char_iff]
  simp only [sequence_eq_success_iff]

theorem token_iff_parts {κ₁ τ₁ κ₂ τ₂ : Type} [Cursor κ₁ τ₁] [Symbol τ₁] [Cursor κ₂ τ₂] [Symbol τ₂]
    {a : κ₁} {b : κ₂} (h : chars pattern = chars a ++ chars b) :
    token pattern s = .success u r ↔ spanOf (pair (token a) (token b)) s = .success u r := by
  rw [token_eq_success_iff, spanOf_eq_success_iff, h, append_prefix_iff, List.length_append,
    ← Cursor.advance_advance, ← Cursor.chars_advance]
  constructor
  · rintro ⟨hu, ⟨ha, hb⟩, hr⟩
    have hfirst := token_eq_success_iff.2 ⟨rfl, ha, rfl⟩
    have hsecond := token_eq_success_iff.2 ⟨rfl, hb, hr⟩
    exact ⟨hu, ⟨_, _⟩, pair_eq_success_iff.2 ⟨_, hfirst, hsecond⟩⟩
  · rintro ⟨hu, v, hv⟩
    obtain ⟨m, hva, hvb⟩ := pair_eq_success_iff.1 hv
    obtain ⟨-, ha, rfl⟩ := token_eq_success_iff.1 hva
    obtain ⟨-, hb, hr⟩ := token_eq_success_iff.1 hvb
    exact ⟨hu, ⟨ha, hb⟩, hr⟩

end Tokens

/-- **A token is a prefix.**  It succeeds if the characters of the pattern are a prefix of those of
the input, of whatever kinds the two are.  Its span holds the pattern then, and what remains is the
input behind it; otherwise, also where the input ends inside the pattern, it fails recoverably, with
its error and its anchor at the input.  Its symbols one by one succeed on the same inputs, with the
same span and the same rest, and so do two tokens in turn whose patterns make up its own. -/
theorem token_matches_prefix [Cursor κ τ] [Symbol τ] (pattern : κ) (s : ι) :
    ((∃ u r, token pattern s = .success u r) ↔ chars pattern <+: chars s) ∧
    (∀ u r, token pattern s = .success u r → u = ⟨s, r⟩ ∧ Suffix r s ∧
      chars u = chars pattern ∧ chars s = chars pattern ++ chars r) ∧
    (¬ chars pattern <+: chars s →
      token pattern s = .failure (.new s [s!"Token({Cursor.text pattern})"]) s) ∧
    (∀ u r, token pattern s = .success u r ↔
      spanOf (sequence ((Cursor.toList pattern).map char)) s =
        (.success u r : Outcome ι (ParseError ι) (Span ι))) ∧
    ∀ {κ₁ τ₁ κ₂ τ₂ : Type} [Cursor κ₁ τ₁] [Symbol τ₁] [Cursor κ₂ τ₂] [Symbol τ₂]
      (a : κ₁) (b : κ₂), chars pattern = chars a ++ chars b → ∀ u r,
      token pattern s = .success u r ↔ spanOf (pair (token a) (token b)) s = .success u r := by
  refine ⟨⟨?_, fun h => ?_⟩, fun u r h => ?_, token_of_not_prefix, fun u r => token_iff_chars,
    fun a b hparts u r => token_iff_parts hparts⟩
  · rintro ⟨u, r, h⟩
    exact (token_eq_success_iff.1 h).2.1
  · exact ⟨_, _, token_eq_success_iff.2 ⟨rfl, h, rfl⟩⟩
  · exact ⟨(token_eq_success_iff.1 h).1, chars_of_token h⟩

/-- The text `éab`, which is its first character and two ASCII characters, in front of `!`.  The
text `éa` ends inside it. -/
theorem token_matches_prefix_accented :
    ¬ chars (Text.ofString "éab") <+: chars (Text.ofString "éa") ∧
    token (Text.ofString "éab") (Text.ofString "éa") =
      .failure (.new (.ofString "éa") ["Token(éab)"]) (.ofString "éa") ∧
    chars (Text.ofString "éab") = chars (Text.ofString "é") ++ chars (AsciiText.ofString "ab") ∧
    token (Text.ofString "éab") (Text.ofString "éab!") =
      .success ⟨.ofString "éab!", .ofString "!"⟩ (.ofString "!") ∧
    chars (⟨.ofString "éab!", .ofString "!"⟩ : Span Text) = ['é', 'a', 'b'] ∧
    spanOf (pair (token (Text.ofString "é")) (token (AsciiText.ofString "ab")))
      (Text.ofString "éab!") = .success ⟨.ofString "éab!", .ofString "!"⟩ (.ofString "!") := by
  have hchars : ∀ text : String, chars (Text.ofString text) = text.toList :=
    fun text => Text.chars_eq _
  have hshort : ¬ chars (Text.ofString "éab") <+: chars (Text.ofString "éa") := by
    rw [hchars, hchars]
    decide
  have hparts : chars (Text.ofString "éab") =
      chars (Text.ofString "é") ++ chars (AsciiText.ofString "ab") := by
    rw [hchars, hchars, AsciiText.chars_eq]
    rfl
  have hlong : token (Text.ofString "éab") (Text.ofString "éab!") =
      .success ⟨.ofString "éab!", .ofString "!"⟩ (.ofString "!") := by
    refine token_eq_success_iff.2 ⟨rfl, ?_, ?_⟩
    · rw [hchars, hchars]
      decide
    · rw [hchars]
      rfl
  obtain ⟨-, -, hfails, -, -⟩ :=
    token_matches_prefix (Text.ofString "éab") (Text.ofString "éa")
  obtain ⟨-, hholds, -, -, htwo⟩ :=
    token_matches_prefix (Text.ofString "éab") (Text.ofString "éab!")
  obtain ⟨-, -, hspan, -⟩ := hholds _ _ hlong
  rw [hchars] at hspan
  refine ⟨hshort, ?_, hparts, hlong, hspan, (htwo _ _ hparts _ _).1 hlong⟩
  have htext : Cursor.text (Text.ofString "éab") = "éab" := congrArg String.ofList (hchars "éab")
  rw [hfails hshort, htext]
  rfl

end ParserAlgebra.Parser
