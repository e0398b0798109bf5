import ParserAlgebra.Proofs.Shape
import ParserAlgebra.Proofs.Suffix

/-!
# Consumption

A parser *advances* if whatever it leaves unread is a suffix of what it was given.  Every primitive
parser advances, and every combinator advances as long as its parts do, so every tree whose leaves
advance does (`parse_success_suffix`).

Two kinds of parsers need an argument of their own: the repetitions, where the rest of one round is
the input of the next, and those that go back on purpose, whose rest is a place they have already
been at.
-/

set_option autoImplicit false

namespace ParserAlgebra

open Cursor (Suffix)

variable {ι σ ε ε' ρ α β γ : Type} [Cursor ι σ]

/-- What a success leaves unread is a suffix of the input. -/
def Parser.Advances (p : Parser ι ε α) : Prop :=
  ∀ ⦃s : ι⦄ ⦃a : α⦄ ⦃r : ι⦄, p s = .success a r → Suffix r s

namespace Parser.Advances

/-! ## One child -/

theorem succeed (a : α) : (Parser.succeed a : Parser ι ε α).Advances := by
  intro s b r h
  cases h
  exact .refl s

theorem fail [Diagnostic ε ι] (d : String) : (Parser.fail d : Parser ι ε α).Advances := by
  intro s b r h
  cases h

theorem endOfInput [Diagnostic ε ι] : (Parser.endOfInput : Parser ι ε Unit).Advances := by
  intro s b r h
  unfold Parser.endOfInput at h
  split at h
  · cases h
    exact .refl s
  · cases h

theorem map {p : Parser ι ε α} (hp : p.Advances) (f : α → β) : (p.map f).Advances := by
  intro s b r h
  unfold Parser.map Outcome.map at h
  split at h
  · rename_i hps
    cases h
    exact hp hps
  · cases h

theorem tryMap [Seed ρ ε ι] {p : Parser ι ε α} (hp : p.Advances) (f : α → Except ρ β) :
    (p.tryMap f).Advances := by
  intro s b r h
  unfold Parser.tryMap at h
  split at h
  · rename_i hps
    split at h
    · cases h
      exact hp hps
    · cases h
  · cases h

theorem mapError {p : Parser ι ε α} (hp : p.Advances) (f : ε → ε') :
    (p.mapError f).Advances := by
  intro s b r h
  unfold Parser.mapError at h
  split at h
  · rename_i hps
    cases h
    exact hp hps
  · cases h

theorem label [Diagnostic ε ι] {p : Parser ι ε α} (hp : p.Advances) (d : String) :
    (p.label d).Advances := by
  intro s b r h
  unfold Parser.label at h
  split at h
  · rename_i hps
    cases h
    exact hp hps
  · split at h <;> cases h

theorem verify [Diagnostic ε ι] {p : Parser ι ε α} (hp : p.Advances) (check : α → Bool) :
    (p.verify check).Advances := by
  intro s b r h
  unfold Parser.verify at h
  split at h
  · rename_i hps
    split at h
    · cases h
      exact hp hps
    · cases h
  · cases h

theorem complete [Diagnostic ε ι] {p : Parser ι ε α} (hp : p.Advances) : p.complete.Advances := by
  intro s b r h
  unfold Parser.complete at h
  split at h
  · rename_i hps
    split at h
    · cases h
      exact hp hps
    · cases h
  · cases h

theorem spanOf {p : Parser ι ε α} (hp : p.Advances) : p.spanOf.Advances := by
  intro s b r h
  unfold Parser.spanOf at h
  split at h
  · rename_i hps
    cases h
    exact hp hps
  · cases h

theorem yielding {p : Parser ι ε α} (hp : p.Advances) (b : β) : (p.yielding b).Advances := by
  intro s c r h
  unfold Parser.yielding at h
  split at h
  · rename_i hps
    cases h
    exact hp hps
  · cases h

/-! ## Going back -/

/-- Whatever the child does, nothing is taken. -/
theorem notFollowedBy [Diagnostic ε ι] (p : Parser ι ε α) : p.notFollowedBy.Advances := by
  intro s b r h
  unfold Parser.notFollowedBy at h
  split at h
  · cases h
  · split at h
    · cases h
    · cases h
      exact .refl s

theorem lookahead (p : Parser ι ε α) : p.lookahead.Advances := by
  intro s b r h
  unfold Parser.lookahead at h
  split at h
  · cases h
    exact .refl s
  · cases h

theorem optional [Diagnostic ε ι] {p : Parser ι ε α} (hp : p.Advances) : p.optional.Advances := by
  intro s b r h
  unfold Parser.optional at h
  split at h
  · rename_i hps
    cases h
    exact hp hps
  · split at h
    · cases h
    · cases h
      exact .refl s

theorem withDefault [Diagnostic ε ι] {p : Parser ι ε α} (hp : p.Advances) (a : α) :
    (p.withDefault a).Advances := by
  intro s b r h
  unfold Parser.withDefault at h
  split at h
  · rename_i hps
    cases h
    exact hp hps
  · split at h
    · cases h
    · cases h
      exact .refl s

theorem findMatch_suffix [Diagnostic ε ι] (p : Parser ι ε α) (s : ι) :
    ∀ {r : ι}, findMatch p s = .ok (some r) → Suffix r s := by
  fun_induction findMatch p s with
  | case1 => intro r h; cases h
  | case2 s =>
      intro r h
      cases h
      exact .refl s
  | case3 => intro r h; cases h
  | case4 s _ _ _ _ _ ih =>
      intro r h
      exact (ih h).trans (Cursor.suffix_tail s)

theorem takeUntil [Diagnostic ε ι] (p : Parser ι ε α) : p.takeUntil.Advances := by
  intro s b r h
  unfold Parser.takeUntil at h
  split at h
  · rename_i hm
    cases h
    exact findMatch_suffix p s hm
  · cases h
  · cases h

/-! ## Choices -/

theorem orElse [Diagnostic ε ι] {p q : Parser ι ε α} (hp : p.Advances) (hq : q.Advances) :
    (p.orElse q).Advances := by
  intro s b r h
  unfold Parser.orElse at h
  split at h
  · rename_i hps
    cases h
    exact hp hps
  · split at h
    · cases h
    · split at h
      · rename_i hqs
        cases h
        exact hq hqs
      · split at h <;> cases h

theorem tryEach_suffix [Diagnostic ε ι] (s : ι) (tried : Option ε) {ps : List (Parser ι ε α)}
    (hps : ∀ p ∈ ps, p.Advances) {b : α} {r : ι} (h : tryEach s tried ps = .success b r) :
    Suffix r s := by
  fun_induction tryEach s tried ps with
  | case1 => cases h
  | case2 => cases h
  | case3 _ p ps a t hp =>
      cases h
      exact hps p List.mem_cons_self hp
  | case4 => cases h
  | case5 p ps _ _ _ _ ih => exact ih (fun q hq => hps q (List.mem_cons_of_mem p hq)) h
  | case6 p ps _ _ _ _ _ ih => exact ih (fun q hq => hps q (List.mem_cons_of_mem p hq)) h

theorem firstOf [Diagnostic ε ι] {ps : List (Parser ι ε α)} (hps : ∀ p ∈ ps, p.Advances) :
    (Parser.firstOf ps).Advances :=
  fun _ _ _ h => tryEach_suffix _ none hps h

/-! ## Sequences -/

theorem pair {p : Parser ι ε α} {q : Parser ι ε β} (hp : p.Advances) (hq : q.Advances) :
    (p.pair q).Advances := by
  intro s v r h
  unfold Parser.pair at h
  split at h
  · rename_i hps
    split at h
    · rename_i hqt
      cases h
      exact (hq hqt).trans (hp hps)
    · cases h
  · cases h

theorem separatedPair {p : Parser ι ε α} {sep : Parser ι ε γ} {q : Parser ι ε β}
    (hp : p.Advances) (hsep : sep.Advances) (hq : q.Advances) :
    (p.separatedPair sep q).Advances := by
  intro s v r h
  unfold Parser.separatedPair at h
  split at h
  · rename_i hps
    split at h
    · rename_i hst
      split at h
      · rename_i hqu
        cases h
        exact (hq hqu).trans ((hsep hst).trans (hp hps))
      · cases h
    · cases h
  · cases h

theorem seqRight {p : Parser ι ε α} {q : Parser ι ε β} (hp : p.Advances) (hq : q.Advances) :
    (p.seqRight q).Advances := by
  intro s v r h
  unfold Parser.seqRight at h
  split at h
  · rename_i hps
    split at h
    · rename_i hqt
      cases h
      exact (hq hqt).trans (hp hps)
    · cases h
  · cases h

theorem seqLeft {p : Parser ι ε α} {q : Parser ι ε β} (hp : p.Advances) (hq : q.Advances) :
    (p.seqLeft q).Advances := by
  intro s v r h
  unfold Parser.seqLeft at h
  split at h
  · rename_i hps
    split at h
    · rename_i hqt
      cases h
      exact (hq hqt).trans (hp hps)
    · cases h
  · cases h

theorem between {p : Parser ι ε α} {q : Parser ι ε β} {close : Parser ι ε γ}
    (hp : p.Advances) (hq : q.Advances) (hclose : close.Advances) :
    (p.between q close).Advances := by
  intro s v r h
  unfold Parser.between at h
  split at h
  · rename_i hps
    split at h
    · rename_i hqt
      split at h
      · rename_i hcu
        cases h
        exact (hclose hcu).trans ((hq hqt).trans (hp hps))
      · cases h
    · cases h
  · cases h

theorem collect_suffix {ps : List (Parser ι ε α)} (hps : ∀ p ∈ ps, p.Advances) {s r : ι}
    {vs : List α} (h : collect ps s = .ok (vs, r)) : Suffix r s := by
  induction ps generalizing s vs with
  | nil =>
      cases h
      exact .refl _
  | cons p ps ih =>
      unfold collect at h
      split at h
      · rename_i hp
        obtain ⟨ws, _, h⟩ := prepend_eq_ok_iff.1 h
        have hr := ih (fun q hq => hps q (List.mem_cons_of_mem p hq)) h
        exact hr.trans (hps p List.mem_cons_self hp)
      · cases h

theorem sequence {ps : List (Parser ι ε α)} (hps : ∀ p ∈ ps, p.Advances) :
    (Parser.sequence ps).Advances :=
  fun _ _ _ h => collect_suffix hps (Outcome.ofExcept_eq_success_iff.1 h)

theorem replicate_suffix {p : Parser ι ε α} (hp : p.Advances) (n : Nat) {s r : ι} {vs : List α}
    (h : replicate p n s = .ok (vs, r)) : Suffix r s := by
  induction n generalizing s vs with
  | zero =>
      cases h
      exact .refl _
  | succ n ih =>
      unfold replicate at h
      split at h
      · rename_i hps
        obtain ⟨ws, _, h⟩ := prepend_eq_ok_iff.1 h
        exact (ih h).trans (hp hps)
      · cases h

theorem times [Diagnostic ε ι] {p : Parser ι ε α} (hp : p.Advances) (n : Nat) :
    (p.times n).Advances := by
  intro s vs r h
  unfold Parser.times at h
  split at h
  · cases h
  · exact replicate_suffix hp n (Outcome.ofExcept_eq_success_iff.1 h)

/-! ## Repetitions -/

theorem gather_suffix [Diagnostic ε ι] {p : Parser ι ε α} (hp : p.Advances) (guard : String)
    (s : ι) : ∀ {vs : List α} {r : ι}, gather p guard s = .ok (vs, r) → Suffix r s := by
  fun_induction gather p guard s with
  | case1 s a t hps _ ih =>
      intro vs r h
      obtain ⟨ws, _, h⟩ := prepend_eq_ok_iff.1 h
      exact (ih h).trans (hp hps)
  | case2 => intro vs r h; cases h
  | case3 => intro vs r h; cases h
  | case4 =>
      intro vs r h
      cases h
      exact .refl _

theorem many [Diagnostic ε ι] {p : Parser ι ε α} (hp : p.Advances) : p.many.Advances :=
  fun _ _ _ h => gather_suffix hp "Many0" _ (Outcome.ofExcept_eq_success_iff.1 h)

theorem many1 [Diagnostic ε ι] {p : Parser ι ε α} (hp : p.Advances) : p.many1.Advances := by
  intro s vs r h
  unfold Parser.many1 at h
  split at h
  · rename_i hps
    split at h
    · obtain ⟨ws, _, h⟩ := prepend_eq_ok_iff.1 (Outcome.ofExcept_eq_success_iff.1 h)
      exact (gather_suffix hp "Many1" _ h).trans (hp hps)
    · cases h
  · cases h

/-- A trailing separator is given back: the rest is the place in front of it. -/
theorem gatherSep_suffix [Diagnostic ε ι] {sep : Parser ι ε β} {p : Parser ι ε α}
    (hsep : sep.Advances) (hp : p.Advances) (guard : String) (limit : Nat) (s : ι) :
    ∀ {vs : List α} {r : ι}, gatherSep sep p guard limit s = some (.ok (vs, r)) → Suffix r s := by
  fun_induction gatherSep sep p guard limit s with
  | case1 => intro vs r h; cases h
  | case2 =>
      intro vs r h
      cases h
      exact .refl _
  | case3 => intro vs r h; cases h
  | case4 =>
      intro vs r h
      cases h
      exact .refl _
  | case5 limit s _ u hsu a t hpu _ _ ih =>
      intro vs r h
      obtain ⟨x, hx, h⟩ := Option.map_eq_some_iff.1 h
      obtain ⟨ws, _, rfl⟩ := prepend_eq_ok_iff.1 h
      exact (ih hx).trans ((hp hpu).trans (hsep hsu))
  | case6 => intro vs r h; cases h
  | case7 s _ u hsu a t hpu _ _ limit ih =>
      intro vs r h
      obtain ⟨x, hx, h⟩ := Option.map_eq_some_iff.1 h
      obtain ⟨ws, _, rfl⟩ := prepend_eq_ok_iff.1 h
      exact (ih hx).trans ((hp hpu).trans (hsep hsu))
  | case8 => intro vs r h; cases h

theorem sepByGuarded [Diagnostic ε ι] {sep : Parser ι ε β} {p : Parser ι ε α}
    (hsep : sep.Advances) (hp : p.Advances) (required : Bool) (guard : String) :
    (Parser.sepByGuarded required guard sep p).Advances := by
  intro s vs r h
  unfold Parser.sepByGuarded at h
  split at h
  · rename_i hps
    split at h
    · split at h
      · rename_i rest hg
        obtain ⟨ws, _, rfl⟩ := prepend_eq_ok_iff.1 (Outcome.ofExcept_eq_success_iff.1 h)
        exact (gatherSep_suffix hsep hp guard regrowthLimit _ hg).trans (hp hps)
      · cases h
    · cases h
  · split at h
    · cases h
    · cases h
      exact .refl s

/-! ## Primitives -/

theorem symbolWhere (d : String) (accepts : σ → Bool) :
    (Parser.symbolWhere d accepts : Parser ι (ParseError ι) σ).Advances := by
  intro s x r h
  unfold Parser.symbolWhere at h
  split at h
  · rename_i hn
    split at h
    · cases h
      exact Cursor.suffix_of_next? hn
    · cases h
  · cases h

theorem anySymbol : (Parser.anySymbol : Parser ι (ParseError ι) σ).Advances := by
  intro s x r h
  unfold Parser.anySymbol at h
  split at h
  · rename_i hn
    cases h
    exact Cursor.suffix_of_next? hn
  · cases h

theorem take (n : Nat) : (Parser.take n : Parser ι (ParseError ι) (Span ι)).Advances := by
  intro s v r h
  unfold Parser.take at h
  split at h
  rename_i k t hadv
  split at h
  · cases h
    have := Cursor.suffix_advance n s
    rwa [hadv] at this
  · cases h

theorem takeRun_suffix (accepts : σ → Bool) (limit : Nat) (s : ι) :
    Suffix (takeRun accepts limit s).2 s := by
  induction limit generalizing s with
  | zero => exact .refl s
  | succ limit ih =>
      unfold takeRun
      split
      · rename_i t hn
        split
        · exact .next hn (ih t)
        · exact .refl s
      · exact .refl s

theorem takeWhileBetween (least most : Nat) (accepts : σ → Bool) :
    (Parser.takeWhileBetween least most accepts : Parser ι (ParseError ι) (Span ι)).Advances := by
  intro s v r h
  unfold Parser.takeWhileBetween at h
  split at h
  rename_i k t hrun
  split at h
  · cases h
  · cases h
    have := takeRun_suffix accepts most s
    rwa [hrun] at this

variable [Symbol σ]

theorem behind?_suffix {τ : Type} [Symbol τ] (ys : List τ) {s r : ι}
    (h : behind? ys s = some r) : Suffix r s := by
  induction ys generalizing s with
  | nil =>
      cases h
      exact .refl _
  | cons y ys ih =>
      unfold behind? at h
      split at h
      · rename_i hn
        split at h
        · exact .next hn (ih h)
        · cases h
      · cases h

theorem token {κ τ : Type} [Cursor κ τ] [Symbol τ] (pattern : κ) :
    (Parser.token pattern : Parser ι (ParseError ι) (Span ι)).Advances := by
  intro s v r h
  unfold Parser.token at h
  split at h
  · rename_i hb
    cases h
    exact behind?_suffix _ hb
  · cases h

theorem ofClass1 (k : CharClass) :
    (Parser.ofClass1 k : Parser ι (ParseError ι) (Span ι)).Advances :=
  (takeWhileBetween 1 maxCount k.contains).label k.descriptor

theorem named (d : String) (c : Char) :
    (Parser.named d c : Parser ι (ParseError ι) σ).Advances :=
  (symbolWhere "Satisfy" _).label d

theorem crlf : (Parser.crlf : Parser ι (ParseError ι) (Span ι)).Advances :=
  ((named "CR" '\r').pair (named "LF" '\n')).spanOf.label "CRLF"

theorem newline : (Parser.newline : Parser ι (ParseError ι) (Span ι)).Advances :=
  ((named "LF" '\n').spanOf.orElse crlf).label "newline"

theorem behindSign_suffix (s : ι) : Suffix (if startsWith '-' s then Cursor.tail s else s) s := by
  split
  · exact Cursor.suffix_tail s
  · exact .refl s

theorem behindFraction_suffix (s : ι) : Suffix (behindFraction s) s := by
  unfold behindFraction
  split
  · split
    · rename_i hd
      exact (ofClass1 .digit hd).trans (Cursor.suffix_tail s)
    · exact .refl s
  · exact .refl s

theorem literal (d : String) (fraction : Bool) :
    (Parser.literal d fraction : Parser ι (ParseError ι) (Span ι)).Advances := by
  intro s v r h
  unfold Parser.literal at h
  dsimp only at h
  cases hd : Parser.ofClass1 .digit (if startsWith '-' s then Cursor.tail s else s) with
  | success w t =>
      have ht : Suffix t s := (ofClass1 .digit hd).trans (behindSign_suffix s)
      rw [hd] at h
      cases h
      split
      · exact (behindFraction_suffix t).trans ht
      · exact ht
  | failure e o =>
      rw [hd] at h
      dsimp only at h
      split at h <;> cases h

theorem convert {lit : Parser ι (ParseError ι) (Span ι)} (hlit : lit.Advances)
    (read : List Char → Except Cause α) : (Parser.convert read lit).Advances := by
  intro s a r h
  unfold Parser.convert at h
  split at h
  · rename_i hl
    split at h
    · cases h
      exact hlit hl
    · cases h
  · cases h

theorem integerAs (read : List Char → Except Cause α) :
    (Parser.integerAs read : Parser ι (ParseError ι) α).Advances :=
  (literal "integer" false).convert read

theorem integer (t : LiteralType) :
    (Parser.integer t : Parser ι (ParseError ι) Int).Advances :=
  integerAs _

theorem number : (Parser.number : Parser ι (ParseError ι) Float).Advances :=
  (literal "number" true).convert _

end Parser.Advances

variable [Symbol σ]

theorem Primitive.parse_advances (p : Primitive ι σ α) : p.parse.Advances := by
  cases p with
  | char c => exact .symbolWhere _ _
  | oneOf set => exact .symbolWhere _ _
  | noneOf set => exact .symbolWhere _ _
  | satisfy accepts => exact .symbolWhere _ _
  | anySymbol => exact .anySymbol
  | lineFeed => exact .named _ _
  | carriageReturn => exact .named _ _
  | space => exact .named _ _
  | tab => exact .named _ _
  | token pattern => exact .token pattern
  | take n => exact .take n
  | takeWhileBetween least most accepts => exact .takeWhileBetween least most accepts
  | takeWhile accepts => exact .takeWhileBetween 0 Parser.maxCount accepts
  | takeWhile1 accepts => exact .takeWhileBetween 1 Parser.maxCount accepts
  | ofClass k => exact .takeWhileBetween 0 Parser.maxCount k.contains
  | ofClass1 k => exact .ofClass1 k
  | crlf => exact .crlf
  | newline => exact .newline
  | integer t => exact .integer t
  | number => exact .number

theorem Grammar.parse_advances [inst : Diagnostic ε ι] (g : Grammar ι σ ε α)
    (hg : g.LeavesSatisfy Parser.Advances) : g.parse.Advances := by
  induction g generalizing inst with
  | leaf p => exact hg
  | primitive p => exact p.parse_advances
  | integerAs read => exact .integerAs read
  | succeed a => exact .succeed a
  | fail d => exact .fail d
  | endOfInput => exact .endOfInput
  | map f p ih => exact (ih hg.2).map f
  | tryMap f p ih => exact (ih hg.2).tryMap f
  | mapError f p ih => exact (ih hg.2).mapError f
  | label d p ih => exact (ih hg.2).label d
  | verify check p ih => exact (ih hg.2).verify check
  | complete p ih => exact (ih hg.2).complete
  | notFollowedBy p => exact .notFollowedBy p.parse
  | optional p ih => exact (ih hg.2).optional
  | withDefault a p ih => exact (ih hg.2).withDefault a
  | lookahead p => exact .lookahead p.parse
  | spanOf p ih => exact (ih hg.2).spanOf
  | yielding b p ih => exact (ih hg.2).yielding b
  | takeUntil p => exact .takeUntil p.parse
  | orElse p q ihp ihq => exact (ihp hg.2.1).orElse (ihq hg.2.2)
  | firstOf n ps ih =>
      refine .firstOf fun p hp => ?_
      obtain ⟨i, rfl⟩ := List.mem_ofFn.1 hp
      exact ih i (hg.2 i)
  | pair p q ihp ihq => exact (ihp hg.2.1).pair (ihq hg.2.2)
  | separatedPair p sep q ihp ihsep ihq =>
      exact (ihp hg.2.1).separatedPair (ihsep hg.2.2.1) (ihq hg.2.2.2)
  | seqRight p q ihp ihq => exact (ihp hg.2.1).seqRight (ihq hg.2.2)
  | seqLeft p q ihp ihq => exact (ihp hg.2.1).seqLeft (ihq hg.2.2)
  | between p q close ihp ihq ihclose =>
      exact (ihp hg.2.1).between (ihq hg.2.2.1) (ihclose hg.2.2.2)
  | sequence n ps ih =>
      refine .sequence fun p hp => ?_
      obtain ⟨i, rfl⟩ := List.mem_ofFn.1 hp
      exact ih i (hg.2 i)
  | times p n ih => exact (ih hg.2).times n
  | many p ih => exact (ih hg.2).many
  | many1 p ih => exact (ih hg.2).many1
  | sepBy sep p ihsep ihp => exact (ihsep hg.2.1).sepByGuarded (ihp hg.2.2) _ _
  | sepBy1 sep p ihsep ihp => exact (ihsep hg.2.1).sepByGuarded (ihp hg.2.2) _ _

/-- **Consumption.**  If a tree whose leaves advance succeeds, then what it leaves unread is a suffix
of its input, and what was consumed and what is left add up to the input. -/
theorem Grammar.parse_success_suffix [Diagnostic ε ι] (g : Grammar ι σ ε α)
    (hg : g.LeavesSatisfy Parser.Advances) {s : ι} {a : α} {r : ι}
    (h : g.parse s = .success a r) :
    Suffix r s ∧ Cursor.length r ≤ Cursor.length s ∧
      (g.parse s).consumed s + Cursor.length r = Cursor.length s := by
  have hsuf : Suffix r s := g.parse_advances hg h
  have hle : Cursor.length r ≤ Cursor.length s := hsuf.length_le
  refine ⟨hsuf, hle, ?_⟩
  rw [h, Outcome.consumed]
  omega

/-- Two commas, read by a client's own parser, and no third. -/
def twoCommas : Grammar (Span Text) Char (ParseError (Span Text)) (List Char) :=
  .seqLeft (.times (.leaf (Parser.char ',')) 2) (.notFollowedBy (.leaf (Parser.char ',')))

/-- The part of `,,é,` in front of the last comma. -/
theorem parse_success_suffix_twoCommas :
    twoCommas.LeavesSatisfy Parser.Advances ∧
      twoCommas.parse (.confine .ofString ",,é" ",") =
        .success [',', ','] (.confine .ofString "é" ",") ∧
      Suffix (Span.confine Text.ofString "é" ",") (.confine .ofString ",,é" ",") := by
  have hleaves : twoCommas.LeavesSatisfy Parser.Advances := by
    have hcomma := Parser.Advances.symbolWhere (ι := Span Text) "Char(,)"
      fun x => Symbol.same x ','
    exact ⟨trivial, ⟨trivial, hcomma⟩, trivial, hcomma⟩
  have hparse : twoCommas.parse (.confine .ofString ",,é" ",") =
      .success [',', ','] (.confine .ofString "é" ",") := rfl
  exact ⟨hleaves, hparse, (twoCommas.parse_success_suffix hleaves hparse).1⟩

end ParserAlgebra
