import ParserAlgebra.Proofs.Consumption
import ParserAlgebra.Proofs.Plan

/-!
# How often repetitions call their parts

A repetition is a loop around parsers that may be a client's own.  Whatever these do, it calls them
a bounded number of times: each round has to shorten the input, and the search for a match moves on
by a symbol.  A separated list compares an element only with the input behind its separator, so
there the separators have to keep from growing the input.

* `Plan.calls` — the calls that a plan makes itself, in the order of time.
* `Call.AtMost`, `Call.InRounds` — what the calls of a repetition look like.
* `Plan.calls_rounds`, `Plan.calls_search`, `Plan.calls_separatedRounds` — the calls of the loops.
* `Parser.gatherSep_bounded` — the rounds of a separated list come to an end, and shorten the input
  at least by the number of their values.
* `Grammar.calls_repetition` — the bounds for the repetitions themselves.
-/

set_option autoImplicit false

namespace ParserAlgebra

variable {ι σ ε α β : Type}

/-! ## Calls -/

/-- A tree that is called, and the input that it is called at. -/
structure Call (ι σ : Type) : Type 1 where
  {ε α : Type}
  tree : Grammar ι σ ε α
  input : ι

namespace Call

/-- Calls of one tree and of no other, at most so many. -/
def AtMost (p : Grammar ι σ ε α) (n : Nat) (calls : List (Call ι σ)) : Prop :=
  ∃ xs : List ι, calls = xs.map (Call.mk p) ∧ xs.length ≤ n

/-- Rounds of a separator and an element, at most so many, and perhaps one more separator. -/
def InRounds (sep : Grammar ι σ ε β) (p : Grammar ι σ ε α) (n : Nat) (calls : List (Call ι σ)) :
    Prop :=
  ∃ (rounds : List (ι × ι)) (last : Option ι),
    calls = (rounds.flatMap fun x => [⟨sep, x.1⟩, ⟨p, x.2⟩]) ++ last.toList.map (Call.mk sep) ∧
      rounds.length ≤ n

variable {sep : Grammar ι σ ε β} {p : Grammar ι σ ε α} {n m : Nat} {calls : List (Call ι σ)}

namespace AtMost

theorem nil (p : Grammar ι σ ε α) (n : Nat) : AtMost p n [] := ⟨[], rfl, Nat.zero_le n⟩

theorem cons (h : AtMost p n calls) (s : ι) : AtMost p (n + 1) (⟨p, s⟩ :: calls) := by
  obtain ⟨xs, rfl, hlen⟩ := h
  exact ⟨s :: xs, rfl, Nat.succ_le_succ hlen⟩

theorem mono (h : AtMost p n calls) (hle : n ≤ m) : AtMost p m calls := by
  obtain ⟨xs, hcalls, hlen⟩ := h
  exact ⟨xs, hcalls, Nat.le_trans hlen hle⟩

end AtMost

namespace InRounds

theorem nil (sep : Grammar ι σ ε β) (p : Grammar ι σ ε α) (n : Nat) : InRounds sep p n [] :=
  ⟨[], none, rfl, Nat.zero_le n⟩

theorem separator (sep : Grammar ι σ ε β) (p : Grammar ι σ ε α) (n : Nat) (s : ι) :
    InRounds sep p n [⟨sep, s⟩] :=
  ⟨[], some s, rfl, Nat.zero_le n⟩

theorem cons (h : InRounds sep p n calls) (s u : ι) :
    InRounds sep p (n + 1) (⟨sep, s⟩ :: ⟨p, u⟩ :: calls) := by
  obtain ⟨rounds, last, rfl, hlen⟩ := h
  exact ⟨(s, u) :: rounds, last, rfl, Nat.succ_le_succ hlen⟩

theorem mono (h : InRounds sep p n calls) (hle : n ≤ m) : InRounds sep p m calls := by
  obtain ⟨rounds, last, hcalls, hlen⟩ := h
  exact ⟨rounds, last, hcalls, Nat.le_trans hlen hle⟩

end InRounds

end Call

open Call (AtMost InRounds)

namespace Plan

/-- What a plan calls itself, in the order of time.  What its calls call in turn is not included. -/
def calls : {ε α : Type} → Plan ι σ ε α → List (Call ι σ)
  | _, _, answer _ => []
  | _, _, call g s body go => ⟨g, s⟩ :: (go body.outcome).calls
  | _, _, translate g s _ _ => [⟨g, s⟩]

theorem calls_answer (o : Outcome ι ε α) : (answer o : Plan ι σ ε α).calls = [] := rfl

theorem calls_require (anchor : ι) (p : Part ι σ ε β) (s : ι) (next : β → ι → Plan ι σ ε α) :
    (require anchor p s next).calls = ⟨p.tree, s⟩ ::
      match p.parser s with
      | .success b r => (next b r).calls
      | .failure _ _ => [] := by
  unfold require Part.parser
  rw [calls]
  cases (p.plan s).outcome <;> rfl

theorem calls_attempt [Diagnostic ε ι] (anchor : ι) (p : Part ι σ ε β) (s : ι)
    (next : β → ι → Plan ι σ ε α) (otherwise : Plan ι σ ε α) :
    (attempt anchor p s next otherwise).calls = ⟨p.tree, s⟩ ::
      match p.parser s with
      | .success b r => (next b r).calls
      | .failure e _ => if Diagnostic.isFatal e then [] else otherwise.calls := by
  unfold attempt Part.parser
  rw [calls]
  cases (p.plan s).outcome with
  | success b r => rfl
  | failure e o =>
      dsimp only
      split <;> rfl

/-- Where there is no other way, a failure ends the plan, fatal or not. -/
theorem calls_attempt_answer [Diagnostic ε ι] (anchor : ι) (p : Part ι σ ε β) (s : ι)
    (next : β → ι → Plan ι σ ε α) (o : Outcome ι ε α) :
    (attempt anchor p s next (.answer o)).calls = ⟨p.tree, s⟩ ::
      match p.parser s with
      | .success b r => (next b r).calls
      | .failure _ _ => [] := by
  rw [calls_attempt]
  cases p.parser s with
  | success b r => rfl
  | failure e t =>
      dsimp only
      rw [calls_answer, ite_self]

end Plan

/-! ## Loops over one part -/

variable [Cursor ι σ] [Diagnostic ε ι]

namespace Plan

theorem calls_rounds (anchor : ι) (p : Part ι σ ε α) (guard : String) (vs : List α) (s : ι) :
    AtMost p.tree (Cursor.length s + 1) (rounds anchor p guard vs s).calls := by
  fun_induction rounds anchor p guard vs s with
  | case1 vs s ih =>
      rw [calls_attempt_answer]
      refine .cons ?_ s
      cases p.parser s with
      | failure e o => exact .nil _ _
      | success a r =>
          dsimp only
          split
          · rename_i hlt
            exact (ih a r hlt).mono hlt
          · exact .nil _ _

/-- A match is looked for at most once at each symbol. -/
theorem calls_search (anchor : ι) (p : Part ι σ ε α) (s : ι) :
    AtMost p.tree (Cursor.toList s).length (search anchor p s).calls := by
  fun_induction search anchor p s with
  | case1 s hs => exact .nil _ _
  | case2 s hs ih =>
      have hsymbols : (Cursor.toList s).length ≠ 0 := by
        rwa [Ne, List.length_eq_zero_iff, Cursor.toList_eq_nil_iff, ← Cursor.isEmpty_iff]
      obtain ⟨n, hn⟩ := Nat.exists_eq_succ_of_ne_zero hsymbols
      rw [Cursor.toList_tail, List.length_tail, hn] at ih
      rw [calls_attempt, hn]
      refine .cons ?_ s
      cases p.parser s with
      | success a r => exact .nil _ _
      | failure e o =>
          dsimp only
          split
          · exact .nil _ _
          · exact ih

end Plan

/-! ## Separated lists -/

/-- A parser that never hands back more than it was given. -/
def Parser.NeverGrows (p : Parser ι ε α) : Prop :=
  ∀ ⦃s r : ι⦄ ⦃a : α⦄, p s = .success a r → Cursor.length r ≤ Cursor.length s

omit [Diagnostic ε ι] in
theorem Parser.Advances.neverGrows {p : Parser ι ε α} (hp : p.Advances) : p.NeverGrows :=
  fun _ _ _ h => (hp h).length_le

namespace Plan

variable {sep : Part ι σ ε β} (hsep : sep.parser.NeverGrows) (anchor : ι) (p : Part ι σ ε α)
  (guard : String) (limit : Nat) (vs : List α)

include hsep

/-- A round that leads to another has shortened the input, since its separator has not grown it. -/
theorem calls_separatedRounds (s : ι) : InRounds sep.tree p.tree (Cursor.length s + 1)
    (separatedRounds anchor sep p guard limit vs s).calls := by
  fun_induction separatedRounds anchor sep p guard limit vs s with
  | case1 limit vs s ih _ =>
      rw [calls_attempt_answer]
      cases hs : sep.parser s with
      | failure e o => exact .separator _ _ _ s
      | success b u =>
          have hus := hsep hs
          dsimp only
          rw [calls_attempt_answer]
          refine .cons ?_ s u
          cases p.parser u with
          | failure e o => exact .nil _ _ _
          | success a r =>
              dsimp only
              by_cases hru : Cursor.length r < Cursor.length u
              · -- the guard is about `u`; that the whole round shortens `s` is up to the separator
                have hrs : Cursor.length r < Cursor.length s := by omega
                rw [if_pos hru, dif_pos hrs]
                exact (ih a r hrs).mono hrs
              · rw [if_neg hru]
                exact .nil _ _ _

/-- The rounds behind a first element that has shortened the input, if it has. -/
theorem calls_behind_first (s r : ι) (o : Outcome ι ε (List α)) :
    InRounds sep.tree p.tree (Cursor.length s)
      (if Cursor.length r < Cursor.length s then separatedRounds anchor sep p guard limit vs r
        else .answer o).calls := by
  split
  · rename_i hlt
    exact (calls_separatedRounds hsep anchor p guard limit vs r).mono hlt
  · exact .nil _ _ _

end Plan

namespace Parser

/-- The rounds come to an end by themselves, and each value takes its share of the input. -/
theorem gatherSep_bounded {sep : Parser ι ε β} (hsep : sep.NeverGrows) (p : Parser ι ε α)
    (guard : String) (limit : Nat) (s : ι) :
    ∃ x, gatherSep sep p guard limit s = some x ∧
      ∀ vs r, x = .ok (vs, r) → vs.length + Cursor.length r ≤ Cursor.length s := by
  fun_induction gatherSep sep p guard limit s with
  | case1 limit s e o hs he => exact ⟨_, rfl, fun vs r h => by cases h⟩
  | case2 limit s e o hs he =>
      refine ⟨_, rfl, fun vs r h => ?_⟩
      cases h
      simp
  | case3 limit s b u hs e o hp he => exact ⟨_, rfl, fun vs r h => by cases h⟩
  | case4 limit s b u hs e o hp he =>
      refine ⟨_, rfl, fun vs r h => ?_⟩
      cases h
      simp
  | case5 limit s b u hs a r hp hru hrs ih =>
      obtain ⟨x, hx, hlen⟩ := ih
      refine ⟨prepend a x, by rw [hx]; rfl, fun vs t h => ?_⟩
      obtain ⟨ws, rfl, hok⟩ := prepend_eq_ok_iff.1 h
      have hrest := hlen ws t hok
      rw [List.length_cons]
      omega
  | case6 s b u hs a r hp hru hrs =>
      have hus := hsep hs
      omega
  | case7 s b u hs a r hp hru hrs limit ih =>
      have hus := hsep hs
      omega
  | case8 limit s b u hs a r hp hru => exact ⟨_, rfl, fun vs r h => by cases h⟩

theorem sepByGuarded_bounded {sep : Parser ι ε β} (hsep : sep.NeverGrows) {p : Parser ι ε α}
    {required : Bool} {guard : String} {s r : ι} {vs : List α}
    (h : sepByGuarded required guard sep p s = .success vs r) :
    vs.length + Cursor.length r ≤ Cursor.length s := by
  unfold sepByGuarded at h
  split at h
  · rename_i a t hp
    split at h
    · rename_i hts
      obtain ⟨x, hx, hlen⟩ := gatherSep_bounded hsep p guard regrowthLimit t
      rw [hx] at h
      obtain ⟨ws, rfl, hok⟩ := prepend_eq_ok_iff.1 (Outcome.ofExcept_eq_success_iff.1 h)
      have hrest := hlen ws r hok
      rw [List.length_cons]
      omega
    · cases h
  · split at h
    · cases h
    · cases h
      simp

end Parser

/-! ## Repetitions -/

namespace Grammar

variable [Symbol σ]

/-- The calls of a tree's own, when it is run on an input. -/
def calls (g : Grammar ι σ ε α) (s : ι) : List (Call ι σ) := (g.plan s).calls

theorem calls_many1 (p : Grammar ι σ ε α) (s : ι) :
    AtMost p (Cursor.length s + 1) (p.many1.calls s) := by
  rw [calls, plan, Plan.calls_require]
  refine .cons ?_ s
  cases Part.parser ⟨p, p.plan⟩ s with
  | failure e o => exact .nil _ _
  | success a r =>
      dsimp only
      split
      · rename_i hlt
        exact (Plan.calls_rounds s ⟨p, p.plan⟩ "Many1" [a] r).mono hlt
      · exact .nil _ _

section Separated

variable {sep : Grammar ι σ ε β} (hsep : sep.parse.NeverGrows) (p : Grammar ι σ ε α) (s : ι)

include hsep

theorem neverGrows_part : (Part.parser ⟨sep, sep.plan⟩).NeverGrows := by
  rwa [parser_part sep.outcome_plan]

theorem calls_sepBy : ∃ rest, (Grammar.sepBy sep p).calls s = ⟨p, s⟩ :: rest ∧
    InRounds sep p (Cursor.length s) rest := by
  rw [calls, plan, Plan.calls_attempt_answer]
  refine ⟨_, rfl, ?_⟩
  cases Part.parser ⟨p, p.plan⟩ s with
  | success a r => exact Plan.calls_behind_first (neverGrows_part hsep) s ⟨p, p.plan⟩ _ _ [a] s r _
  | failure e o => exact .nil _ _ _

theorem calls_sepBy1 : ∃ rest, (Grammar.sepBy1 sep p).calls s = ⟨p, s⟩ :: rest ∧
    InRounds sep p (Cursor.length s) rest := by
  rw [calls, plan, Plan.calls_require]
  refine ⟨_, rfl, ?_⟩
  cases Part.parser ⟨p, p.plan⟩ s with
  | success a r => exact Plan.calls_behind_first (neverGrows_part hsep) s ⟨p, p.plan⟩ _ _ [a] s r _
  | failure e o => exact .nil _ _ _

end Separated

/-- **Every repetition ends, with a bound.**  Whatever a part does, it is called at most once more
than its input is long, and a match is looked for at most once at each symbol.  In a separated list
whose separator never grows the input, there is one call of the element and then at most as many
rounds as the input is long; there are at most as many values as input they took, and the limit on
rounds that do not shorten the input is never met. -/
theorem calls_repetition (p : Grammar ι σ ε α) (s : ι) :
    AtMost p (Cursor.length s + 1) (p.many.calls s) ∧
    AtMost p (Cursor.length s + 1) (p.many1.calls s) ∧
    AtMost p (Cursor.toList s).length (p.takeUntil.calls s) ∧
    ∀ {β : Type} (sep : Grammar ι σ ε β), sep.parse.NeverGrows →
      (∀ list ∈ [Grammar.sepBy sep p, Grammar.sepBy1 sep p],
        (∃ rest, list.calls s = ⟨p, s⟩ :: rest ∧ InRounds sep p (Cursor.length s) rest) ∧
        ∀ vs r, list.parse s = .success vs r →
          vs.length + Cursor.length r ≤ Cursor.length s) ∧
      ∀ (guard : String) (limit : Nat) (t : ι),
        Parser.gatherSep sep.parse p.parse guard limit t ≠ none := by
  refine ⟨Plan.calls_rounds s ⟨p, p.plan⟩ "Many0" [] s, calls_many1 p s,
    Plan.calls_search s ⟨p, p.plan⟩ s, fun {β} sep hsep => ⟨?_, fun guard limit t => ?_⟩⟩
  · intro list hlist
    simp only [List.mem_cons, List.not_mem_nil, or_false] at hlist
    rcases hlist with rfl | rfl
    · exact ⟨calls_sepBy hsep p s, fun vs r => Parser.sepByGuarded_bounded hsep⟩
    · exact ⟨calls_sepBy1 hsep p s, fun vs r => Parser.sepByGuarded_bounded hsep⟩
  · obtain ⟨x, hx, -⟩ := Parser.gatherSep_bounded hsep p.parse guard limit t
    rw [hx]
    exact Option.some_ne_none x

end Grammar

/-- A client's own parser that hands back an unrelated input, at times a longer one. -/
def stray : Grammar Text Char (ParseError Text) Unit := .leaf fun _ => .success () (.ofString "é")

/-- A comma, or nothing at all. -/
def commaOrNothing : Grammar Text Char (ParseError Text) (Option Char) :=
  .optional (.primitive (.char ','))

/-- Repetitions of a parser that strays on `né`, and a list of it on `aé,a`. -/
theorem calls_repetition_stray :
    commaOrNothing.parse.NeverGrows ∧
    AtMost stray 4 (stray.many.calls (.ofString "né")) ∧
    AtMost stray 2 (stray.takeUntil.calls (.ofString "né")) ∧
    (∃ rest, (Grammar.sepBy1 commaOrNothing stray).calls (.ofString "aé,a") =
      ⟨stray, .ofString "aé,a"⟩ :: rest ∧ InRounds commaOrNothing stray 5 rest) := by
  have hsep : commaOrNothing.parse.NeverGrows :=
    (commaOrNothing.parse_advances ⟨trivial, trivial⟩).neverGrows
  obtain ⟨hmany, -, huntil, -⟩ := Grammar.calls_repetition stray (.ofString "né")
  obtain ⟨-, -, -, hlists⟩ := Grammar.calls_repetition stray (.ofString "aé,a")
  have hlist := (hlists commaOrNothing hsep).1 (.sepBy1 commaOrNothing stray) (by simp)
  rw [Text.toList_eq] at huntil
  exact ⟨hsep, hmany, huntil, hlist.1⟩

end ParserAlgebra
