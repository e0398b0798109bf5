import ParserAlgebra.Proofs.ChoiceNesting
import ParserAlgebra.Proofs.Unrolling

/-!
# The furthest error

An ordered choice answers with the first of its parsers that does not fail recoverably.  If there is
none, what it reports is put together from the errors of all of them, one after another: the errors
that got furthest, and only these, say what was expected.

* `ParseError.Furthest` — what the errors of a list come to.  It is closed under merging
  (`ParseError.Furthest.merge`), so it is an invariant of every loop that merges errors, and there is
  only one such error (`ParseError.Furthest.unique`).
* `ParseError.merged_in_any_bracketing` — merging, bracketed in any way.
* `Parser.Declines` — a recoverable failure, with its error.
* `Parser.tryEach_furthest` — the loop of an ordered choice.
* `Parser.firstOf_answers_first` — the answer of an ordered choice.
-/

set_option autoImplicit false

namespace ParserAlgebra

variable {ι σ ε α : Type}

namespace ParseError

variable [Cursor ι σ]

/-- Are two errors equally far on? -/
def level (e f : ParseError ι) : Bool := Cursor.length f.position == Cursor.length e.position

/-- What the errors of a list come to.  The error points where the first of those points that have
least input left.  Of the errors that have equally little left, in their order, it has all the
descriptors and the first cause. -/
structure Furthest (es : List (ParseError ι)) (e : ParseError ι) : Prop where
  position : ∃ before f after, es = before ++ f :: after ∧ e.position = f.position ∧
    (∀ g ∈ before, Cursor.length f.position < Cursor.length g.position) ∧
    ∀ g ∈ after, Cursor.length f.position ≤ Cursor.length g.position
  expected : e.expected = (es.filter e.level).flatMap ParseError.expected
  cause : e.cause = (es.filter e.level).findSome? ParseError.cause

/-- Errors that are all behind another one are not level with it. -/
theorem filter_level_of_behind {e : ParseError ι} {es : List (ParseError ι)}
    (h : ∀ g ∈ es, Cursor.length e.position < Cursor.length g.position) :
    es.filter e.level = [] := by
  rw [List.filter_eq_nil_iff]
  intro g hg
  have hlt := h g hg
  simp only [level, beq_iff_eq]
  omega

theorem level_eq_of_length_eq {e f : ParseError ι}
    (h : Cursor.length f.position = Cursor.length e.position) : f.level = e.level := by
  funext g
  simp only [level, h]

namespace Furthest

variable {e f : ParseError ι} {es fs : List (ParseError ι)}

theorem length_le (h : Furthest es e) {g : ParseError ι} (hg : g ∈ es) :
    Cursor.length e.position ≤ Cursor.length g.position := by
  obtain ⟨before, k, after, rfl, hpos, hbefore, hafter⟩ := h.position
  rw [hpos]
  rcases List.mem_append.1 hg with hg | hg
  · exact Nat.le_of_lt (hbefore g hg)
  · rcases List.mem_cons.1 hg with rfl | hg
    · exact Nat.le_refl _
    · exact hafter g hg

theorem singleton (e : ParseError ι) : Furthest [e] e := by
  have hlevel : [e].filter e.level = [e] := by simp [level]
  refine ⟨⟨[], e, [], rfl, rfl, ?_, ?_⟩, ?_, ?_⟩
  · intro g hg
    cases hg
  · intro g hg
    cases hg
  · rw [hlevel]
    simp
  · rw [hlevel]
    cases h : e.cause <;> simp [h]

/-- Errors that got less far make no difference, in front and behind. -/
theorem append_left (hf : Furthest fs f)
    (h : ∀ g ∈ es, Cursor.length f.position < Cursor.length g.position) :
    Furthest (es ++ fs) f := by
  have hfilter : (es ++ fs).filter f.level = fs.filter f.level := by
    rw [List.filter_append, filter_level_of_behind h, List.nil_append]
  obtain ⟨before, k, after, rfl, hpos, hbefore, hafter⟩ := hf.position
  refine ⟨⟨es ++ before, k, after, by simp, hpos, ?_, hafter⟩, ?_, ?_⟩
  · intro g hg
    rcases List.mem_append.1 hg with hg | hg
    · have hlt := h g hg
      rwa [hpos] at hlt
    · exact hbefore g hg
  · rw [hfilter]
    exact hf.expected
  · rw [hfilter]
    exact hf.cause

theorem append_right (he : Furthest es e)
    (h : ∀ g ∈ fs, Cursor.length e.position < Cursor.length g.position) :
    Furthest (es ++ fs) e := by
  have hfilter : (es ++ fs).filter e.level = es.filter e.level := by
    rw [List.filter_append, filter_level_of_behind h, List.append_nil]
  obtain ⟨before, k, after, rfl, hpos, hbefore, hafter⟩ := he.position
  refine ⟨⟨before, k, after ++ fs, by simp, hpos, hbefore, ?_⟩, ?_, ?_⟩
  · intro g hg
    rcases List.mem_append.1 hg with hg | hg
    · exact hafter g hg
    · have hlt := h g hg
      rw [hpos] at hlt
      exact Nat.le_of_lt hlt
  · rw [hfilter]
    exact he.expected
  · rw [hfilter]
    exact he.cause

/-- Errors that got equally far are put together. -/
theorem add (he : Furthest es e) (hf : Furthest fs f)
    (h : Cursor.length f.position = Cursor.length e.position) :
    Furthest (es ++ fs) (e.add f) := by
  have hadd : (e.add f).level = e.level := rfl
  have hlevel : f.level = e.level := level_eq_of_length_eq h
  obtain ⟨before, k, after, hes, hpos, hbefore, hafter⟩ := he.position
  refine ⟨⟨before, k, after ++ fs, by simp [hes], hpos, hbefore, ?_⟩, ?_, ?_⟩
  · intro g hg
    rcases List.mem_append.1 hg with hg | hg
    · exact hafter g hg
    · have hle := hf.length_le hg
      rw [← hpos, ← h]
      exact hle
  · have hexpected := hf.expected
    rw [hlevel] at hexpected
    rw [hadd, List.filter_append, List.flatMap_append, ← he.expected, ← hexpected]
    rfl
  · have hcause := hf.cause
    rw [hlevel] at hcause
    rw [hadd, List.filter_append, List.findSome?_append, ← he.cause, ← hcause]
    exact Option.orElse_eq_or

/-- What two lists of errors come to, merged, is what both of them in a row come to. -/
theorem merge (he : Furthest es e) (hf : Furthest fs f) : Furthest (es ++ fs) (e.merge f) := by
  rcases Nat.lt_trichotomy (Cursor.length f.position) (Cursor.length e.position) with h | h | h
  · rw [merge_of_further h]
    refine hf.append_left fun g hg => ?_
    have hle := he.length_le hg
    omega
  · rw [merge_of_level h]
    exact he.add hf h
  · rw [merge_of_behind h]
    refine he.append_right fun g hg => ?_
    have hle := hf.length_le hg
    omega

/-- What errors come to is level with the furthest of them, and points where the first of these
does. -/
theorem head?_level (h : Furthest es e) :
    (es.filter e.level).head?.map ParseError.position = some e.position := by
  obtain ⟨before, k, after, rfl, hpos, hbefore, -⟩ := h.position
  have hbehind : before.filter e.level = [] := by
    refine filter_level_of_behind fun g hg => ?_
    rw [hpos]
    exact hbefore g hg
  have hk : e.level k = true := by
    rw [level, hpos]
    exact beq_self_eq_true _
  rw [List.filter_append, hbehind, List.nil_append, List.filter_cons_of_pos hk, hpos]
  rfl

theorem length_le_of_furthest (he : Furthest es e) (hf : Furthest es f) :
    Cursor.length e.position ≤ Cursor.length f.position := by
  obtain ⟨before, k, after, rfl, hpos, -, -⟩ := hf.position
  rw [hpos]
  exact he.length_le (List.mem_append_right _ List.mem_cons_self)

/-- Errors come to one error only. -/
theorem unique (he : Furthest es e) (hf : Furthest es f) : e = f := by
  have hlength := Nat.le_antisymm (he.length_le_of_furthest hf) (hf.length_le_of_furthest he)
  have hlevel : e.level = f.level := level_eq_of_length_eq hlength
  have hposition : some e.position = some f.position := by
    rw [← he.head?_level, ← hf.head?_level, hlevel]
  have hexpected : e.expected = f.expected := by rw [he.expected, hf.expected, hlevel]
  have hcause : e.cause = f.cause := by rw [he.cause, hf.cause, hlevel]
  cases e
  cases f
  cases hposition
  cases hexpected
  cases hcause
  rfl

/-- What errors come to is fatal if and only if one of the furthest of them is. -/
theorem isFatal_iff (h : Furthest es e) :
    e.isFatal = true ↔ ∃ g ∈ es, e.level g = true ∧ g.isFatal = true := by
  simp only [isFatal, h.cause, List.findSome?_isSome_iff, List.mem_filter, and_assoc]

/-- Recoverable errors come to a recoverable error. -/
theorem isFatal_eq_false (h : Furthest es e) (hes : ∀ g ∈ es, g.isFatal = false) :
    e.isFatal = false := by
  rw [← Bool.not_eq_true, h.isFatal_iff]
  rintro ⟨g, hg, -, hfatal⟩
  rw [hes g hg] at hfatal
  cases hfatal

end Furthest

/-! ## Merging in any bracketing -/

/-- The errors of a nest, merged two at a time. -/
def merged (t : Nest (ParseError ι)) : ParseError ι := t.fold (fun e => e) merge

theorem merged_furthest (t : Nest (ParseError ι)) : (merged t).Furthest t.leaves := by
  induction t with
  | leaf e => exact .singleton e
  | node l r ihl ihr => exact ihl.merge ihr

/-- **Errors come to the same in any bracketing.**  Merging is associative.  However the errors of a
list that is not empty are bracketed, merging them gives one and the same error, and this is what the
furthest of them come to: it points where the first of them does, it has all their descriptors in
order, and the first cause that one of them has, so that it is fatal if and only if one of them is.
There is no other such error. -/
theorem merged_in_any_bracketing :
    (∀ e f g : ParseError ι, (e.merge f).merge g = e.merge (f.merge g)) ∧
    ∀ es : List (ParseError ι), es ≠ [] →
      (∃ t : Nest (ParseError ι), t.leaves = es) ∧
      ∃ e, (∀ t : Nest (ParseError ι), t.leaves = es → merged t = e) ∧ e.Furthest es ∧
        (∀ f, f.Furthest es → f = e) ∧
        (e.isFatal = true ↔ ∃ g ∈ es, e.level g = true ∧ g.isFatal = true) := by
  refine ⟨merge_assoc, fun es hes => ?_⟩
  have hleaves := Nest.leaves_balanced es hes
  have hfurthest := merged_furthest (.balanced es hes)
  rw [hleaves] at hfurthest
  refine ⟨⟨_, hleaves⟩, merged (.balanced es hes), fun t ht => ?_, hfurthest, fun f hf => ?_,
    hfurthest.isFatal_iff⟩
  · subst ht
    exact (merged_furthest t).unique hfurthest
  · exact hf.unique hfurthest

/-- Errors at places of several texts.  The outer two got less far than the other three, of which the
last two are fatal.  So is the first of all. -/
def farAndFatal : Nest (ParseError Text) :=
  .node (.leaf (.newFatal (.ofString "éa") (.custom "near") ["a"]))
    (.node
      (.node (.leaf (.new (.ofString "b") ["c"]))
        (.leaf (.newFatal (.ofString "d") (.custom "first") ["e"])))
      (.node (.leaf (.newFatal (.ofString "b") (.custom "second") ["f"]))
        (.leaf (.new (.ofString "xyz") ["g"]))))

/-- What these come to, in the given brackets and in balanced ones.  The cause of the first error is
left out, and one of the others is taken. -/
theorem merged_in_any_bracketing_farAndFatal :
    farAndFatal.leaves ≠ [] ∧
    merged farAndFatal = .newFatal (.ofString "b") (.custom "first") ["c", "e", "f"] ∧
    merged (.balanced farAndFatal.leaves (List.cons_ne_nil _ _)) = merged farAndFatal ∧
    (merged farAndFatal).Furthest farAndFatal.leaves ∧
    ∃ g ∈ farAndFatal.leaves, (merged farAndFatal).level g = true ∧ g.isFatal = true := by
  have hleaves : farAndFatal.leaves ≠ [] := List.cons_ne_nil _ _
  obtain ⟨-, e, hmerged, hfurthest, -, hfatal⟩ := merged_in_any_bracketing.2 _ hleaves
  have hbalanced := hmerged (.balanced _ hleaves) (Nest.leaves_balanced _ hleaves)
  obtain rfl := hmerged farAndFatal rfl
  exact ⟨hleaves, rfl, hbalanced, hfurthest, hfatal.1 rfl⟩

end ParseError

namespace Parser

/-- The parser fails recoverably, with the error. -/
def Declines [Diagnostic ε ι] (p : Parser ι ε α) (s : ι) (e : ε) : Prop :=
  ∃ o, p s = .failure e o ∧ Diagnostic.isFatal e = false

section Loop

variable [Diagnostic ε ι] {p : Parser ι ε α} {s : ι}

/-- One round of a choice whose parser fails recoverably. -/
theorem tryEach_of_declines {e : ε} (h : p.Declines s e) (tried : Option ε)
    (after : List (Parser ι ε α)) :
    tryEach s tried (p :: after) =
      tryEach s (some (tried.elim e (Diagnostic.merge · e))) after := by
  obtain ⟨o, hp, he⟩ := h
  rw [tryEach_cons, hp]
  exact if_neg (Bool.eq_false_iff.1 he)

/-- The round that ends a choice. -/
theorem tryEach_of_not_givesUp (h : ¬ p.GivesUp s) (tried : Option ε)
    (after : List (Parser ι ε α)) : tryEach s tried (p :: after) = p s := by
  rw [tryEach_cons]
  cases hp : p s with
  | success a r => rfl
  | failure e o =>
      have he : Diagnostic.isFatal e = true := by
        by_contra hne
        exact h ⟨e, o, hp, Bool.eq_false_iff.2 hne⟩
      exact if_pos he

theorem tryEach_append {before : List (Parser ι ε α)} (hbefore : ∀ q ∈ before, q.GivesUp s)
    (h : ¬ p.GivesUp s) (tried : Option ε) (after : List (Parser ι ε α)) :
    tryEach s tried (before ++ p :: after) = p s := by
  induction before generalizing tried with
  | nil => exact tryEach_of_not_givesUp h tried after
  | cons q before ih =>
      obtain ⟨e, o, hq, he⟩ := hbefore q List.mem_cons_self
      rw [List.cons_append, tryEach_of_declines ⟨o, hq, he⟩]
      exact ih (fun q hq => hbefore q (List.mem_cons_of_mem _ hq)) _

/-- In a list of parsers there is a first one that does not fail recoverably, or all of them do. -/
theorem first_or_all_decline (ps : List (Parser ι ε α)) (s : ι) :
    (∃ before p after, ps = before ++ p :: after ∧ (∀ q ∈ before, q.GivesUp s) ∧
      ¬ p.GivesUp s) ∨ ∃ es, List.Forall₂ (fun p e => p.Declines s e) ps es := by
  induction ps with
  | nil => exact .inr ⟨[], .nil⟩
  | cons p ps ih =>
      by_cases hp : p.GivesUp s
      · rcases ih with ⟨before, q, after, rfl, hbefore, hq⟩ | ⟨es, hes⟩
        · refine .inl ⟨p :: before, q, after, rfl, ?_, hq⟩
          exact List.forall_mem_cons.2 ⟨hp, hbefore⟩
        · obtain ⟨e, o, hpe, he⟩ := hp
          exact .inr ⟨e :: es, .cons ⟨o, hpe, he⟩ hes⟩
      · refine .inl ⟨[], p, ps, rfl, ?_, hp⟩
        intro q hq
        cases hq

end Loop

variable [Cursor ι σ] {s : ι} {ps : List (Parser ι (ParseError ι) α)} {es : List (ParseError ι)}

/-- The error that a choice carries along is at any time what the errors so far come to. -/
theorem tryEach_furthest (h : List.Forall₂ (fun p e => p.Declines s e) ps es)
    {before : List (ParseError ι)} {e : ParseError ι} (he : e.Furthest before) :
    ∃ f, tryEach s (some e) ps = .failure f s ∧ f.Furthest (before ++ es) := by
  induction h generalizing before e with
  | nil => exact ⟨e, rfl, by rwa [List.append_nil]⟩
  | @cons p f ps fs hp _ ih =>
      obtain ⟨g, hg, hfurthest⟩ := ih (he.merge (.singleton f))
      refine ⟨g, ?_, ?_⟩
      · rw [tryEach_of_declines hp]
        exact hg
      · rwa [List.append_assoc, List.singleton_append] at hfurthest

theorem isFatal_of_declines (h : List.Forall₂ (fun p e => p.Declines s e) ps es) :
    ∀ e ∈ es, e.isFatal = false := by
  induction h with
  | nil =>
      intro e he
      cases he
  | cons hp _ ih =>
      obtain ⟨o, -, hfatal⟩ := hp
      exact List.forall_mem_cons.2 ⟨hfatal, ih⟩

theorem firstOf_of_declines (hps : ps ≠ [])
    (h : List.Forall₂ (fun p e => p.Declines s e) ps es) :
    ∃ e, firstOf ps s = .failure e s ∧ e.isFatal = false ∧ e.Furthest es := by
  cases h with
  | nil => exact absurd rfl hps
  | @cons p f ps fs hp hrest =>
      obtain ⟨e, he, hfurthest⟩ := tryEach_furthest hrest (.singleton f)
      refine ⟨e, ?_, hfurthest.isFatal_eq_false (isFatal_of_declines (.cons hp hrest)), hfurthest⟩
      rw [firstOf, tryEach_of_declines hp]
      exact he

/-- **An ordered choice answers with its first answer, or with the furthest error.**  The outcome is
that of the first parser that does not fail recoverably, a fatal failure with the input it came
with, and it makes no difference what comes behind that parser.  If there is no such parser, and at
least one at all, the failure is recoverable and anchored at the input, and its error is what the
errors of all the parsers come to.  One of these two always is the case. -/
theorem firstOf_answers_first (s : ι) :
    (∀ (before : List (Parser ι (ParseError ι) α)) (p : Parser ι (ParseError ι) α)
      (after : List (Parser ι (ParseError ι) α)), (∀ q ∈ before, q.GivesUp s) → ¬ p.GivesUp s →
      firstOf (before ++ p :: after) s = p s) ∧
    (∀ (ps : List (Parser ι (ParseError ι) α)) (es : List (ParseError ι)), ps ≠ [] →
      List.Forall₂ (fun p e => p.Declines s e) ps es →
      ∃ e, firstOf ps s = .failure e s ∧ e.isFatal = false ∧ e.Furthest es) ∧
    ∀ ps : List (Parser ι (ParseError ι) α),
      (∃ before p after, ps = before ++ p :: after ∧ (∀ q ∈ before, q.GivesUp s) ∧
        ¬ p.GivesUp s) ∨
      ∃ es, List.Forall₂ (fun p e => p.Declines s e) ps es := by
  refine ⟨fun before p after hbefore hp => ?_, fun ps es hps hes => ?_, fun ps => ?_⟩
  · exact tryEach_append hbefore hp none after
  · exact firstOf_of_declines hps hes
  · exact first_or_all_decline ps s

/-- Alternatives of which the second and the fourth can get as far as the third symbol. -/
def nearAndFar : List (Parser Text (ParseError Text) Char) :=
  [char 'b', seqRight (char 'é') (behindA 'c'), char 'z', seqRight (char 'é') (behindA 'd')]

/-- The errors of these alternatives on `éab`, and what they come to.  On `!` an alternative in the
middle fails fatally, and the one behind it would succeed. -/
theorem firstOf_answers_first_nearAndFar :
    List.Forall₂ (fun p e => p.Declines (.ofString "éab") e) nearAndFar
      [.new (.ofString "éab") ["Char(b)"], .new (.ofString "b") ["Char(c)"],
        .new (.ofString "éab") ["Char(z)"], .new (.ofString "b") ["Char(d)"]] ∧
    firstOf nearAndFar (.ofString "éab") =
      .failure (.new (.ofString "b") ["Char(c)", "Char(d)"]) (.ofString "éab") ∧
    ParseError.Furthest
      [.new (.ofString "éab") ["Char(b)"], .new (.ofString "b") ["Char(c)"],
        .new (.ofString "éab") ["Char(z)"], .new (.ofString "b") ["Char(d)"]]
      (.new (.ofString "b") ["Char(c)", "Char(d)"] : ParseError Text) ∧
    (∀ q ∈ [char 'b'], q.GivesUp (Text.ofString "!")) ∧ ¬ noBang.GivesUp (.ofString "!") ∧
    firstOf [char 'b', noBang, anySymbol] (.ofString "!") =
      .failure (.newFatal (.ofString "!") (.custom "bang") []) (.ofString "!") := by
  have hdeclines : List.Forall₂ (fun p e => p.Declines (.ofString "éab") e) nearAndFar
      [.new (.ofString "éab") ["Char(b)"], .new (.ofString "b") ["Char(c)"],
        .new (.ofString "éab") ["Char(z)"], .new (.ofString "b") ["Char(d)"]] :=
    .cons ⟨_, rfl, rfl⟩ (.cons ⟨_, rfl, rfl⟩ (.cons ⟨_, rfl, rfl⟩ (.cons ⟨_, rfl, rfl⟩ .nil)))
  have hbefore : ∀ q ∈ [(char 'b' : Parser Text (ParseError Text) Char)],
      q.GivesUp (Text.ofString "!") := by
    intro q hq
    cases List.mem_singleton.1 hq
    exact ⟨_, _, rfl, rfl⟩
  have hfatal : ¬ noBang.GivesUp (.ofString "!") := by
    rintro ⟨e, o, h, he⟩
    cases h
    cases he
  obtain ⟨e, he, -, hfurthest⟩ :=
    (firstOf_answers_first (.ofString "éab")).2.1 nearAndFar _ (List.cons_ne_nil _ _) hdeclines
  have hbang := (firstOf_answers_first (Text.ofString "!")).1 _ _ [anySymbol] hbefore hfatal
  cases he
  exact ⟨hdeclines, rfl, hfurthest, hbefore, hfatal, hbang⟩

end Parser

end ParserAlgebra
