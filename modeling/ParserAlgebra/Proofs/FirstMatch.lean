import ParserAlgebra.Proofs.SymbolRuns
import ParserAlgebra.Proofs.Unrolling

/-!
# Searching for a match

A search tries its parser at one place of the input after another and stops at the first one where
the parser does not fail recoverably.  The places are the suffixes behind any number of symbols, up
to but without the end of the input, which is never tried.

* `Parser.GivesUpBefore` — at so many places in a row the parser fails recoverably.
* `Parser.findMatch_skip` — what the search has behind it makes no difference.
* `Parser.takeUntil_of_match`, `Parser.takeUntil_of_aborts`, `Parser.takeUntil_of_none` — the three
  ways a search can end.
* `Parser.takeUntil_finds_first` — the first match, and how the search fails.
-/

set_option autoImplicit false

namespace ParserAlgebra.Parser

variable {ι σ ε α : Type} [Cursor ι σ] [Diagnostic ε ι] {p : Parser ι ε α} {s : ι}

/-- The parser fails recoverably at the input, and behind each number of symbols below `k`. -/
def GivesUpBefore (p : Parser ι ε α) (s : ι) (k : Nat) : Prop :=
  ∀ j < k, p.GivesUp (Cursor.advance j s).2

omit [Cursor ι σ] in
theorem success_or_aborts_of_not_givesUp (h : ¬ p.GivesUp s) :
    (∃ a t, p s = .success a t) ∨ ∃ e, p.Aborts s e := by
  cases hp : p s with
  | success a t => exact .inl ⟨a, t, rfl⟩
  | failure e o =>
      have he : Diagnostic.isFatal e = true := by
        by_contra hne
        exact h ⟨e, o, hp, Bool.eq_false_iff.2 hne⟩
      exact .inr ⟨e, o, hp, he⟩

/-- There is a first place where the parser does not give up, or it gives up at all of them. -/
theorem first_or_givesUpBefore (p : Parser ι ε α) (s : ι) (n : Nat) :
    (∃ k < n, p.GivesUpBefore s k ∧ ¬ p.GivesUp (Cursor.advance k s).2) ∨
      p.GivesUpBefore s n := by
  induction n with
  | zero =>
      right
      intro j hj
      omega
  | succ n ih =>
      rcases ih with ⟨k, hk, hbefore, hstop⟩ | hbefore
      · exact .inl ⟨k, by omega, hbefore, hstop⟩
      · by_cases hn : p.GivesUp (Cursor.advance n s).2
        · right
          intro j hj
          rcases Nat.lt_succ_iff_lt_or_eq.1 hj with hlt | rfl
          · exact hbefore j hlt
          · exact hn
        · exact .inl ⟨n, by omega, hbefore, hn⟩

/-! ## The search -/

theorem findMatch_of_givesUp (hs : Cursor.isEmpty s = false) (h : p.GivesUp s) :
    findMatch p s = findMatch p (Cursor.tail s) := by
  obtain ⟨e, o, hp, he⟩ := h
  rw [findMatch, dif_neg (by simp [hs]), hp]
  exact if_neg (Bool.eq_false_iff.1 he)

/-- Behind places where the parser gives up, the search goes on as if it began there. -/
theorem findMatch_skip {k : Nat} (hk : k ≤ (Cursor.toList s).length) (h : p.GivesUpBefore s k) :
    findMatch p s = findMatch p (Cursor.advance k s).2 := by
  induction k with
  | zero => rw [Cursor.advance_zero]
  | succ k ih =>
      have hsome : Cursor.isEmpty (Cursor.advance k s).2 = false := by
        rw [Bool.eq_false_iff, Ne, Cursor.isEmpty_advance_iff]
        omega
      have hskip := ih (by omega) fun j hj => h j (by omega)
      have hnext : Cursor.tail (Cursor.advance k s).2 = (Cursor.advance (k + 1) s).2 := by
        rw [Cursor.tail_eq_advance, Cursor.advance_advance]
      rw [hskip, findMatch_of_givesUp hsome (h k (by omega)), hnext]

section Ends

variable {k : Nat} (hk : k < (Cursor.toList s).length) (hbefore : p.GivesUpBefore s k)

include hk hbefore

theorem takeUntil_of_match {a : α} {t : ι} (h : p (Cursor.advance k s).2 = .success a t) :
    takeUntil p s = .success ⟨s, (Cursor.advance k s).2⟩ (Cursor.advance k s).2 := by
  have hfound : findMatch p s = .ok (some (Cursor.advance k s).2) := by
    rw [findMatch_skip (by omega) hbefore, findMatch, dif_neg, h]
    rw [Cursor.isEmpty_advance_iff]
    omega
  rw [takeUntil, hfound]

theorem takeUntil_of_aborts {e : ε} (h : p.Aborts (Cursor.advance k s).2 e) :
    takeUntil p s = .failure e s := by
  obtain ⟨o, hp, he⟩ := h
  have hfound : findMatch p s = .error e := by
    rw [findMatch_skip (by omega) hbefore, findMatch, dif_neg, hp]
    · exact if_pos he
    · rw [Cursor.isEmpty_advance_iff]
      omega
  rw [takeUntil, hfound]

end Ends

theorem takeUntil_of_none (h : p.GivesUpBefore s (Cursor.toList s).length) :
    takeUntil p s = .failure (Diagnostic.expected s "TakeUntil") s := by
  have hfound : findMatch p s = .ok none := by
    rw [findMatch_skip (Nat.le_refl _) h, findMatch, dif_pos]
    exact Cursor.isEmpty_advance_iff.2 (Nat.le_refl _)
  rw [takeUntil, hfound]

/-- One of the three ends is reached. -/
theorem takeUntil_cases (p : Parser ι ε α) (s : ι) :
    (∃ k < (Cursor.toList s).length, p.GivesUpBefore s k ∧
      ∃ a t, p (Cursor.advance k s).2 = .success a t) ∨
    (∃ k < (Cursor.toList s).length, p.GivesUpBefore s k ∧
      ∃ e, p.Aborts (Cursor.advance k s).2 e) ∨
    p.GivesUpBefore s (Cursor.toList s).length := by
  rcases first_or_givesUpBefore p s (Cursor.toList s).length with ⟨k, hk, hbefore, hstop⟩ | hnone
  · rcases success_or_aborts_of_not_givesUp hstop with hmatch | hfatal
    · exact .inl ⟨k, hk, hbefore, hmatch⟩
    · exact .inr (.inl ⟨k, hk, hbefore, hfatal⟩)
  · exact .inr (.inr hnone)

theorem takeUntil_eq_success_iff {u : Span ι} {r : ι} :
    takeUntil p s = .success u r ↔
      ∃ k < (Cursor.toList s).length, p.GivesUpBefore s k ∧
        (∃ a t, p (Cursor.advance k s).2 = .success a t) ∧
        r = (Cursor.advance k s).2 ∧ u = ⟨s, r⟩ := by
  constructor
  · intro h
    rcases takeUntil_cases p s with ⟨k, hk, hbefore, a, t, ha⟩ | ⟨k, hk, hbefore, e, he⟩ | hnone
    · rw [takeUntil_of_match hk hbefore ha] at h
      cases h
      exact ⟨k, hk, hbefore, ⟨a, t, ha⟩, rfl, rfl⟩
    · rw [takeUntil_of_aborts hk hbefore he] at h
      cases h
    · rw [takeUntil_of_none hnone] at h
      cases h
  · rintro ⟨k, hk, hbefore, ⟨a, t, ha⟩, rfl, rfl⟩
    exact takeUntil_of_match hk hbefore ha

theorem takeUntil_eq_failure_iff {e : ε} {o : ι} :
    takeUntil p s = .failure e o ↔ s = o ∧
      ((∃ k < (Cursor.toList s).length, p.GivesUpBefore s k ∧
        p.Aborts (Cursor.advance k s).2 e) ∨
      p.GivesUpBefore s (Cursor.toList s).length ∧ e = Diagnostic.expected s "TakeUntil") := by
  constructor
  · intro h
    rcases takeUntil_cases p s with ⟨k, hk, hbefore, a, t, ha⟩ | ⟨k, hk, hbefore, f, hf⟩ | hnone
    · rw [takeUntil_of_match hk hbefore ha] at h
      cases h
    · rw [takeUntil_of_aborts hk hbefore hf] at h
      cases h
      exact ⟨rfl, .inl ⟨k, hk, hbefore, hf⟩⟩
    · rw [takeUntil_of_none hnone] at h
      cases h
      exact ⟨rfl, .inr ⟨hnone, rfl⟩⟩
  · rintro ⟨rfl, ⟨k, hk, hbefore, he⟩ | ⟨hnone, rfl⟩⟩
    · exact takeUntil_of_aborts hk hbefore he
    · exact takeUntil_of_none hnone

section Severity

variable (hs : Diagnostic.isFatal (Diagnostic.expected s "TakeUntil" : ε) = false)

include hs

theorem takeUntil_aborts_iff {e : ε} :
    (takeUntil p).Aborts s e ↔
      ∃ k < (Cursor.toList s).length, p.GivesUpBefore s k ∧
        p.Aborts (Cursor.advance k s).2 e := by
  constructor
  · rintro ⟨o, h, he⟩
    obtain ⟨-, hfatal | ⟨-, rfl⟩⟩ := takeUntil_eq_failure_iff.1 h
    · exact hfatal
    · rw [hs] at he
      cases he
  · rintro ⟨k, hk, hbefore, o, hp, he⟩
    exact ⟨s, takeUntil_of_aborts hk hbefore ⟨o, hp, he⟩, he⟩

theorem takeUntil_givesUp_iff :
    (takeUntil p).GivesUp s ↔ p.GivesUpBefore s (Cursor.toList s).length := by
  constructor
  · rintro ⟨e, o, h, he⟩
    obtain ⟨-, ⟨k, -, -, -, -, hfatal⟩ | ⟨hnone, -⟩⟩ := takeUntil_eq_failure_iff.1 h
    · rw [he] at hfatal
      cases hfatal
    · exact hnone
  · intro hnone
    exact ⟨_, s, takeUntil_of_none hnone, hs⟩

end Severity

/-- **A search finds the first match.**  It succeeds if behind some number of symbols, short of the
end, the parser matches, and fails recoverably at every place before.  Its value is the span of
these symbols, and what remains starts with the match.  It fails fatally, with the parser's own
error, if the first place where the parser does not fail recoverably is one where it fails fatally.
Otherwise, so on empty input and where the parser matches nothing but the end, it fails with an
error of its own at the input.  Every failure is anchored at the input. -/
theorem takeUntil_finds_first (p : Parser ι ε α) (s : ι) :
    (∀ u r, takeUntil p s = .success u r ↔
      ∃ k < (Cursor.toList s).length, p.GivesUpBefore s k ∧
        (∃ a t, p (Cursor.advance k s).2 = .success a t) ∧
        r = (Cursor.advance k s).2 ∧ u = ⟨s, r⟩) ∧
    (∀ k a t, k < (Cursor.toList s).length → p.GivesUpBefore s k →
      p (Cursor.advance k s).2 = .success a t →
      ∃ u r, pair (takeUntil p) p s = .success ⟨u, a⟩ t ∧ takeUntil p s = .success u r ∧
        u.toList = (Cursor.toList s).take k ∧ Cursor.toList r = (Cursor.toList s).drop k) ∧
    (∀ e o, takeUntil p s = .failure e o ↔ s = o ∧
      ((∃ k < (Cursor.toList s).length, p.GivesUpBefore s k ∧
        p.Aborts (Cursor.advance k s).2 e) ∨
      p.GivesUpBefore s (Cursor.toList s).length ∧ e = Diagnostic.expected s "TakeUntil")) ∧
    (Diagnostic.isFatal (Diagnostic.expected s "TakeUntil" : ε) = false →
      (∀ e, (takeUntil p).Aborts s e ↔
        ∃ k < (Cursor.toList s).length, p.GivesUpBefore s k ∧
          p.Aborts (Cursor.advance k s).2 e) ∧
      ((takeUntil p).GivesUp s ↔ p.GivesUpBefore s (Cursor.toList s).length)) := by
  refine ⟨fun u r => takeUntil_eq_success_iff, fun k a t hk hbefore ha => ?_,
    fun e o => takeUntil_eq_failure_iff, fun hs => ⟨fun e => takeUntil_aborts_iff hs, ?_⟩⟩
  · have hfound := takeUntil_of_match hk hbefore ha
    refine ⟨_, _, ?_, hfound, Cursor.toList_span_advance k s, Cursor.toList_advance k s⟩
    rw [pair, hfound]
    dsimp only
    rw [ha]
  · exact takeUntil_givesUp_iff hs

/-- A full stop, where an exclamation mark is fatal. -/
def stopNoBang : Parser Text (ParseError Text) Char :=
  tryMap (fun c => if c = '!' then .error (Rejection.fatal (.custom "bang")) else .ok c)
    (satisfy fun c => c == '.' || c == '!')

/-- The full stop of `éa.b` is found behind two symbols.  In `é!.` the exclamation mark comes first,
and the end of `éa` is not looked at. -/
theorem takeUntil_finds_first_stopNoBang :
    (2 < (Cursor.toList (Text.ofString "éa.b")).length ∧
      stopNoBang.GivesUpBefore (.ofString "éa.b") 2 ∧
      stopNoBang (Cursor.advance 2 (Text.ofString "éa.b")).2 = .success '.' (.ofString "b") ∧
      Diagnostic.isFatal (Diagnostic.expected (Text.ofString "é!.") "TakeUntil" :
        ParseError Text) = false) ∧
    pair (takeUntil stopNoBang) stopNoBang (.ofString "éa.b") =
      .success ⟨⟨.ofString "éa.b", .ofString ".b"⟩, '.'⟩ (.ofString "b") ∧
    (takeUntil stopNoBang).Aborts (.ofString "é!.")
      (.newFatal (.ofString "!.") (.custom "bang") []) ∧
    takeUntil endOfInput (Text.ofString "éa") =
      .failure (.new (.ofString "éa") ["TakeUntil"] : ParseError Text) (.ofString "éa") := by
  have hlen : ∀ text : String, (Cursor.toList (Text.ofString text)).length = text.toList.length :=
    fun text => congrArg List.length (Text.toList_eq _)
  have htwo : 2 < (Cursor.toList (Text.ofString "éa.b")).length := by
    rw [hlen]
    decide
  have hbefore : stopNoBang.GivesUpBefore (.ofString "éa.b") 2
    | 0, _ => ⟨_, _, rfl, rfl⟩
    | 1, _ => ⟨_, _, rfl, rfl⟩
  have hnoEnd : (endOfInput : Parser Text (ParseError Text) Unit).GivesUpBefore
      (.ofString "éa") (Cursor.toList (Text.ofString "éa")).length := by
    rw [hlen]
    intro j hj
    match j, hj with
    | 0, _ => exact ⟨_, _, rfl, rfl⟩
    | 1, _ => exact ⟨_, _, rfl, rfl⟩
  obtain ⟨hsuccess, hmatch, -, -⟩ := takeUntil_finds_first stopNoBang (.ofString "éa.b")
  obtain ⟨-, -, -, hsevere⟩ := takeUntil_finds_first stopNoBang (.ofString "é!.")
  obtain ⟨-, -, hfails, -⟩ :=
    takeUntil_finds_first (endOfInput : Parser Text (ParseError Text) Unit) (.ofString "éa")
  refine ⟨⟨htwo, hbefore, rfl, rfl⟩, ?_, ?_, ?_⟩
  · obtain ⟨u, r, hpair, hfound, -⟩ := hmatch 2 '.' (.ofString "b") htwo hbefore rfl
    have hexpected := (hsuccess ⟨.ofString "éa.b", .ofString ".b"⟩ (.ofString ".b")).2
      ⟨2, htwo, hbefore, ⟨_, _, rfl⟩, rfl, rfl⟩
    rw [hfound] at hexpected
    cases hexpected
    exact hpair
  · refine ((hsevere rfl).1 _).2 ⟨1, ?_, ?_, _, rfl, rfl⟩
    · rw [hlen]
      decide
    · intro j hj
      match j, hj with
      | 0, _ => exact ⟨_, _, rfl, rfl⟩
  · exact (hfails _ _).2 ⟨rfl, .inr ⟨hnoEnd, rfl⟩⟩

end ParserAlgebra.Parser
