import ParserAlgebra.Proofs.Severity
import ParserAlgebra.Proofs.Consumption

/-!
# Where errors are raised

A tree fails with what its parts have failed with, or it *raises* an error of its own, at a place
that it has been at.  Which errors these are is read off its combinator.

* `Parser.StallsAt`, `Parser.ListStallsAt` — where a repetition matches and does not move.
* `Grammar.Raises` — the errors that a tree raises at an input; it fails with them
  (`Grammar.Raises.parse_eq`).
* `Primitive.parse_pointsAhead` — the errors of primitive parsers point at suffixes of the input.
-/

set_option autoImplicit false

namespace ParserAlgebra

open Cursor (Suffix)

variable {ι σ ε α β : Type} [Cursor ι σ]

/-! ## Repetitions that stall -/

namespace Parser

/-- From `s` on the rounds of `p` make the input shorter, up to one at `u`, which does not. -/
inductive StallsAt (p : Parser ι ε α) : ι → ι → Prop
  | here {s r : ι} {a : α} (h : p s = .success a r)
      (hr : ¬ Cursor.length r < Cursor.length s) : StallsAt p s s
  | later {s r u : ι} {a : α} (h : p s = .success a r)
      (hr : Cursor.length r < Cursor.length s) (h' : StallsAt p r u) : StallsAt p s u

/-- From `s` on the rounds of `sep` and `p` make the input shorter, up to one in which `p` matches
at `u`, behind the separator, and does not. -/
inductive StallsBehind (sep : Parser ι ε β) (p : Parser ι ε α) : ι → ι → Prop
  | here {s u r : ι} {b : β} {a : α} (hsep : sep s = .success b u) (h : p u = .success a r)
      (hr : ¬ Cursor.length r < Cursor.length u) : StallsBehind sep p s u
  | later {s t r u : ι} {b : β} {a : α} (hsep : sep s = .success b t) (h : p t = .success a r)
      (ht : Cursor.length r < Cursor.length t) (hs : Cursor.length r < Cursor.length s)
      (h' : StallsBehind sep p r u) : StallsBehind sep p s u

/-- In a list with separators from `s` on, the element at `u` matches and does not make the input
shorter. -/
inductive ListStallsAt (sep : Parser ι ε β) (p : Parser ι ε α) (s : ι) : ι → Prop
  | first {r : ι} {a : α} (h : p s = .success a r)
      (hr : ¬ Cursor.length r < Cursor.length s) : ListStallsAt sep p s s
  | behind {r u : ι} {a : α} (h : p s = .success a r) (hr : Cursor.length r < Cursor.length s)
      (h' : StallsBehind sep p r u) : ListStallsAt sep p s u

variable [Diagnostic ε ι] {sep : Parser ι ε β} {p : Parser ι ε α} {s u : ι}

theorem StallsAt.gather_eq (h : p.StallsAt s u) (guard : String) :
    gather p guard s = .error (Diagnostic.expected u guard) := by
  induction h with
  | here h hr =>
      rw [gather, h]
      exact if_neg hr
  | later h hr _ ih =>
      rw [gather, h]
      dsimp only
      rw [if_pos hr, ih]
      rfl

theorem StallsAt.many_eq (h : p.StallsAt s u) :
    p.many s = .failure (Diagnostic.expected u "Many0") s := by
  rw [many, h.gather_eq]
  rfl

theorem StallsAt.many1_eq (h : p.StallsAt s u) :
    p.many1 s = .failure (Diagnostic.expected u "Many1") s := by
  cases h with
  | here h hr =>
      rw [many1, h]
      exact if_neg hr
  | later h hr h' =>
      rw [many1, h]
      dsimp only
      rw [if_pos hr, h'.gather_eq]
      rfl

theorem StallsBehind.gatherSep_eq (h : StallsBehind sep p s u) (guard : String) (limit : Nat) :
    gatherSep sep p guard limit s = some (.error (Diagnostic.expected u guard)) := by
  induction h with
  | here hsep h hr =>
      rw [gatherSep, hsep]
      dsimp only
      rw [h]
      exact if_neg hr
  | later hsep h ht hs _ ih =>
      rw [gatherSep, hsep]
      dsimp only
      rw [h]
      dsimp only
      rw [if_pos ht, if_pos hs, ih]
      rfl

theorem ListStallsAt.sepByGuarded_eq (h : ListStallsAt sep p s u) (required : Bool)
    (guard : String) :
    sepByGuarded required guard sep p s = .failure (Diagnostic.expected u guard) s := by
  cases h with
  | first h hr =>
      rw [sepByGuarded, h]
      exact if_neg hr
  | behind h hr h' =>
      rw [sepByGuarded, h]
      dsimp only
      rw [if_pos hr, h'.gatherSep_eq]
      rfl

end Parser

/-! ## What a tree raises -/

/-- The errors that a tree raises at an input: those that come into a run there, and those that its
combinator makes. -/
inductive Grammar.Raises [Symbol σ] :
    {ε α : Type} → [Diagnostic ε ι] → Grammar ι σ ε α → ι → ε → Prop
  | source {ε α : Type} [Diagnostic ε ι] {g : Grammar ι σ ε α} {s : ι} {e : ε}
      (h : g.Source s e) : Raises g s e
  | fail {ε α : Type} [Diagnostic ε ι] (d : String) (s : ι) :
      Raises (.fail d : Grammar ι σ ε α) s (Diagnostic.expected s d)
  | endOfInput {ε : Type} [Diagnostic ε ι] {s : ι} (h : Cursor.isEmpty s = false) :
      Raises (.endOfInput : Grammar ι σ ε Unit) s (Diagnostic.expectedEnd s)
  | label {ε α : Type} [Diagnostic ε ι] {d : String} {p : Grammar ι σ ε α} {s o : ι} {e : ε}
      (h : p.parse s = .failure e o) (he : Diagnostic.isFatal e = false) :
      Raises (.label d p) s (Diagnostic.relabel d e)
  | verify {ε α : Type} [Diagnostic ε ι] {check : α → Bool} {p : Grammar ι σ ε α} {s r : ι} {a : α}
      (h : p.parse s = .success a r) (hcheck : check a = false) :
      Raises (.verify check p) s (Diagnostic.expected s "verify")
  | complete {ε α : Type} [Diagnostic ε ι] {p : Grammar ι σ ε α} {s r : ι} {a : α}
      (h : p.parse s = .success a r) (hr : Cursor.isEmpty r = false) :
      Raises (.complete p) s (Diagnostic.expectedEnd r)
  | notFollowedBy {ε α : Type} [Diagnostic ε ι] {p : Grammar ι σ ε α} {s r : ι} {a : α}
      (h : p.parse s = .success a r) : Raises (.notFollowedBy p) s (Diagnostic.expected s "not")
  | takeUntil {ε α : Type} [Diagnostic ε ι] {p : Grammar ι σ ε α} {s : ι}
      (h : Parser.findMatch p.parse s = .ok none) :
      Raises (.takeUntil p) s (Diagnostic.expected s "TakeUntil")
  | firstOf {ε α : Type} [Diagnostic ε ι] (ps : Fin 0 → Grammar ι σ ε α) (s : ι) :
      Raises (.firstOf 0 ps) s (Diagnostic.expected s "alternative")
  | times {ε α : Type} [Diagnostic ε ι] {p : Grammar ι σ ε α} {n : Nat} {s : ι}
      (h : (n == 0 || Cursor.isEmpty s) = true) :
      Raises (.times p n) s (Diagnostic.expected s "Count")
  | many {ε α : Type} [Diagnostic ε ι] {p : Grammar ι σ ε α} {s u : ι} (h : p.parse.StallsAt s u) :
      Raises (.many p) s (Diagnostic.expected u "Many0")
  | many1 {ε α : Type} [Diagnostic ε ι] {p : Grammar ι σ ε α} {s u : ι} (h : p.parse.StallsAt s u) :
      Raises (.many1 p) s (Diagnostic.expected u "Many1")
  | sepBy {ε α β : Type} [Diagnostic ε ι] {sep : Grammar ι σ ε β} {p : Grammar ι σ ε α} {s u : ι}
      (h : Parser.ListStallsAt sep.parse p.parse s u) :
      Raises (.sepBy sep p) s (Diagnostic.expected u "SeparatedList0")
  | sepBy1 {ε α β : Type} [Diagnostic ε ι] {sep : Grammar ι σ ε β} {p : Grammar ι σ ε α} {s u : ι}
      (h : Parser.ListStallsAt sep.parse p.parse s u) :
      Raises (.sepBy1 sep p) s (Diagnostic.expected u "SeparatedList1")

theorem Grammar.Source.parse_eq [Symbol σ] [inst : Diagnostic ε ι] {g : Grammar ι σ ε α} {s : ι}
    {e : ε} (h : g.Source s e) : ∃ o, g.parse s = .failure e o := by
  cases h with
  | leaf h => exact ⟨_, h⟩
  | primitive h => exact ⟨_, h⟩
  | integerAs h => exact ⟨_, h⟩
  | @tryMap _ ρ α _ _ _ f p _ r a x hp hf =>
      refine ⟨s, ?_⟩
      rw [parse, Parser.tryMap, hp]
      dsimp only
      rw [hf]

/-- What a tree raises is what it fails with. -/
theorem Grammar.Raises.parse_eq [Symbol σ] [inst : Diagnostic ε ι] {g : Grammar ι σ ε α} {s : ι}
    {e : ε} (h : g.Raises s e) : ∃ o, g.parse s = .failure e o := by
  cases h with
  | source h => exact h.parse_eq
  | fail d => exact ⟨s, rfl⟩
  | endOfInput h =>
      refine ⟨s, ?_⟩
      rw [parse, Parser.endOfInput, h]
      rfl
  | @label _ _ _ _ _ o e h he =>
      refine ⟨o, ?_⟩
      rw [parse, Parser.label, h]
      dsimp only
      rw [he]
      rfl
  | verify h hcheck =>
      refine ⟨s, ?_⟩
      rw [parse, Parser.verify, h]
      dsimp only
      rw [hcheck]
      rfl
  | complete h hr =>
      refine ⟨s, ?_⟩
      rw [parse, Parser.complete, h]
      dsimp only
      rw [hr]
      rfl
  | notFollowedBy h =>
      refine ⟨s, ?_⟩
      rw [parse, Parser.notFollowedBy, h]
  | takeUntil h =>
      refine ⟨s, ?_⟩
      rw [parse, Parser.takeUntil, h]
  | firstOf ps => exact ⟨s, rfl⟩
  | times h =>
      refine ⟨s, ?_⟩
      rw [parse, Parser.times, h]
      rfl
  | many h => exact ⟨s, h.many_eq⟩
  | many1 h => exact ⟨s, h.many1_eq⟩
  | sepBy h => exact ⟨s, h.sepByGuarded_eq _ _⟩
  | sepBy1 h => exact ⟨s, h.sepByGuarded_eq _ _⟩

/-! ## Where the errors of primitives point -/

/-- Every error of the parser points at a suffix of its input. -/
def Parser.PointsAhead (p : Parser ι (ParseError ι) α) : Prop :=
  ∀ ⦃s : ι⦄ ⦃e : ParseError ι⦄ ⦃o : ι⦄, p s = .failure e o → Suffix e.position s

namespace Parser.PointsAhead

theorem label {p : Parser ι (ParseError ι) α} (hp : p.PointsAhead) (d : String) :
    (p.label d).PointsAhead := by
  intro s e o h
  unfold Parser.label at h
  split at h
  · cases h
  · rename_i f _ hps
    have hf : Suffix f.position s := hp hps
    split at h
    · cases h
      exact hf
    · cases h
      exact hf

theorem spanOf {p : Parser ι (ParseError ι) α} (hp : p.PointsAhead) : p.spanOf.PointsAhead := by
  intro s e o h
  unfold Parser.spanOf at h
  split at h
  · cases h
  · rename_i hps
    cases h
    exact hp hps

theorem orElse {p q : Parser ι (ParseError ι) α} (hp : p.PointsAhead) (hq : q.PointsAhead) :
    (p.orElse q).PointsAhead := by
  intro s e o h
  unfold Parser.orElse at h
  split at h
  · cases h
  · rename_i f _ hps
    split at h
    · cases h
      exact hp hps
    · split at h
      · cases h
      · rename_i f' _ hqs
        split at h
        · cases h
          exact hq hqs
        · cases h
          have hf : Suffix f.position s := hp hps
          show Suffix (f.merge f').position s
          unfold ParseError.merge
          split
          · exact hq hqs
          · split <;> exact hf

theorem pair {p : Parser ι (ParseError ι) α} {q : Parser ι (ParseError ι) β}
    (hadv : p.Advances) (hp : p.PointsAhead) (hq : q.PointsAhead) : (p.pair q).PointsAhead := by
  intro s e o h
  unfold Parser.pair at h
  split at h
  · rename_i hps
    split at h
    · cases h
    · rename_i hqt
      cases h
      exact (hq hqt).trans (hadv hps)
  · rename_i hps
    cases h
    exact hp hps

theorem symbolWhere (d : String) (accepts : σ → Bool) :
    (Parser.symbolWhere d accepts : Parser ι (ParseError ι) σ).PointsAhead := by
  intro s e o h
  unfold Parser.symbolWhere at h
  split at h
  · split at h
    · cases h
    · cases h
      exact .refl s
  · cases h
    exact .refl s

theorem anySymbol : (Parser.anySymbol : Parser ι (ParseError ι) σ).PointsAhead := by
  intro s e o h
  unfold Parser.anySymbol at h
  split at h
  · cases h
  · cases h
    exact .refl s

/-- The error points at where the input has ended. -/
theorem take (n : Nat) : (Parser.take n : Parser ι (ParseError ι) (Span ι)).PointsAhead := by
  intro s e o h
  unfold Parser.take at h
  split at h
  rename_i k t hadv
  split at h
  · cases h
  · cases h
    have hsuf := Cursor.suffix_advance n s
    rw [hadv] at hsuf
    exact hsuf

theorem takeWhileBetween (least most : Nat) (accepts : σ → Bool) :
    (Parser.takeWhileBetween least most accepts :
      Parser ι (ParseError ι) (Span ι)).PointsAhead := by
  intro s e o h
  unfold Parser.takeWhileBetween at h
  split at h
  split at h
  · cases h
    exact .refl s
  · cases h

variable [Symbol σ]

theorem token {κ τ : Type} [Cursor κ τ] [Symbol τ] (pattern : κ) :
    (Parser.token pattern : Parser ι (ParseError ι) (Span ι)).PointsAhead := by
  intro s e o h
  unfold Parser.token at h
  split at h
  · cases h
  · cases h
    exact .refl s

theorem named (d : String) (c : Char) :
    (Parser.named d c : Parser ι (ParseError ι) σ).PointsAhead :=
  (symbolWhere "Satisfy" _).label d

theorem ofClass1 (k : CharClass) :
    (Parser.ofClass1 k : Parser ι (ParseError ι) (Span ι)).PointsAhead :=
  (takeWhileBetween 1 maxCount k.contains).label k.descriptor

theorem crlf : (Parser.crlf : Parser ι (ParseError ι) (Span ι)).PointsAhead :=
  ((named "CR" '\r').pair (.named "CR" '\r') (named "LF" '\n')).spanOf.label "CRLF"

theorem newline : (Parser.newline : Parser ι (ParseError ι) (Span ι)).PointsAhead :=
  ((named "LF" '\n').spanOf.orElse crlf).label "newline"

/-- A sign without a digit is an error behind the sign. -/
theorem literal (d : String) (fraction : Bool) :
    (Parser.literal d fraction : Parser ι (ParseError ι) (Span ι)).PointsAhead := by
  intro s e o h
  unfold Parser.literal at h
  dsimp only at h
  split at h
  · cases h
  · rename_i f _ hd
    split at h
    · rename_i hsign
      rw [if_pos hsign] at hd
      cases h
      exact (ofClass1 .digit hd).trans (Cursor.suffix_tail s)
    · cases h
      exact .refl s

theorem convert {lit : Parser ι (ParseError ι) (Span ι)} (hlit : lit.PointsAhead)
    (read : List Char → Except Cause α) : (Parser.convert read lit).PointsAhead := by
  intro s e o h
  unfold Parser.convert at h
  split at h
  · split at h
    · cases h
    · cases h
      exact .refl s
  · rename_i hl
    cases h
    exact hlit hl

theorem integerAs (read : List Char → Except Cause α) :
    (Parser.integerAs read : Parser ι (ParseError ι) α).PointsAhead :=
  (literal "integer" false).convert read

theorem integer (t : LiteralType) :
    (Parser.integer t : Parser ι (ParseError ι) Int).PointsAhead :=
  integerAs _

theorem number : (Parser.number : Parser ι (ParseError ι) Float).PointsAhead :=
  (literal "number" true).convert _

end Parser.PointsAhead

theorem Primitive.parse_pointsAhead [Symbol σ] (p : Primitive ι σ α) : p.parse.PointsAhead := by
  cases p with
  | char c => exact .symbolWhere _ _
  | oneOf set => exact .symbolWhere _ _
  | noneOf set => exact .symbolWhere _ _
  | satisfy accepts => exact .symbolWhere _ _
  | anySymbol => exact .anySymbol
  | lineFeed => exact .named _ _
  | carriageReturn => exact .named _ _
  | space => exact .named _ _
  | tab => exact .named _ _
  | token pattern => exact .token pattern
  | take n => exact .take n
  | takeWhileBetween least most accepts => exact .takeWhileBetween least most accepts
  | takeWhile accepts => exact .takeWhileBetween 0 Parser.maxCount accepts
  | takeWhile1 accepts => exact .takeWhileBetween 1 Parser.maxCount accepts
  | ofClass k => exact .takeWhileBetween 0 Parser.maxCount k.contains
  | ofClass1 k => exact .ofClass1 k
  | crlf => exact .crlf
  | newline => exact .newline
  | integer t => exact .integer t
  | number => exact .number

end ParserAlgebra
