import ParserAlgebra.Proofs.Places
import ParserAlgebra.Proofs.Confinement

/-!
# The spans of a run

Spans compare lengths and nothing else, so a span between two unrelated cursors may hold anything,
or cut a symbol in two.  The spans that the library makes are not of this kind: they start at a
suffix of the input and stop at a suffix of their start.  Such a span is a cut of its buffer, and
its storage, its symbols, its length and its text are those of one and the same run of symbols.

* `Buffer.Cuts` — buffers whose front can be cut off behind any number of symbols.
* `Span.Shows` — what it means for a span to look like a text from all sides.
* `Buffer.Cuts.exists_shows` — a span between suffixes does.
* `Grammar.Creates` — the spans that a tree makes at an input.
* `Grammar.createdIn_shows` — all the spans of a run.
-/

set_option autoImplicit false

namespace ParserAlgebra

open Cursor (Suffix)

variable {ι σ ε α β : Type}

/-! ## Cuts of a buffer -/

/-- A buffer that stores nothing but its symbols, and whose front can be cut off behind any of
them. -/
structure Buffer.Cuts [Cursor ι σ] [Buffer ι σ] (store : List σ → ι) : Prop extends
    Storage store where
  store_toList (s : ι) : store (Cursor.toList s) = s
  cut?_append (xs ys : List σ) :
    Buffer.cut? (Cursor.length (store xs)) (store (xs ++ ys)) = some xs

theorem Text.cutList?_append (cs ds : List Char) :
    cutList? (utf8Length cs) (cs ++ ds) = some cs := by
  induction cs with
  | nil =>
      rw [utf8Length, cutList?]
  | cons c cs ih =>
      -- a character has at least one byte, so the cut is not done yet
      obtain ⟨m, hm⟩ := Nat.exists_eq_succ_of_ne_zero (Nat.pos_iff_ne_zero.1 c.utf8Size_pos)
      have hlen : utf8Length (c :: cs) = m + utf8Length cs + 1 := by
        rw [utf8Length, hm]
        omega
      have hrest : m + utf8Length cs + 1 - c.utf8Size = utf8Length cs := by omega
      rw [hlen, List.cons_append, cutList?, if_pos (by omega), hrest, ih]
      rfl

theorem Text.cuts : Buffer.Cuts Text.ofList where
  toStorage := Text.storage
  store_toList s := Text.ext (Text.toList_eq s)
  cut?_append := Text.cutList?_append

theorem Slice.cuts : Buffer.Cuts (Slice.ofList : List σ → Slice σ) where
  toStorage := Slice.storage
  store_toList s := Slice.ext (Slice.toList_eq s)
  cut?_append xs ys := by
    show Slice.cut? xs.length (Slice.ofList (xs ++ ys)) = some xs
    simp [Slice.cut?, Slice.ofList]

/-! ## Views of a span -/

/-- From all sides the span looks like `xs`: cut out of its buffer, read symbol by symbol, measured,
compared and displayed. -/
structure Span.Shows [Cursor ι σ] [Buffer ι σ] [BEq σ] [Symbol σ] (store : List σ → ι)
    (u : Span ι) (xs : List σ) : Prop where
  block? : u.block? = some xs
  toList : u.toList = xs
  length : u.length = Cursor.length (store xs)
  holds (ys : List σ) : u.holds ys = (xs == ys)
  display : u.display = Symbol.textOf xs

section Shows

variable [Cursor ι σ] [Buffer ι σ] [BEq σ] [Symbol σ] {store : List σ → ι}

theorem Buffer.Cuts.confine_shows (hstore : Buffer.Cuts store) (xs tail : List σ) :
    (Span.confine store xs tail).Shows store xs := by
  have hlength : (Span.confine store xs tail).length = Cursor.length (store xs) :=
    hstore.length_confine xs tail
  have hblock : (Span.confine store xs tail).block? = some xs := by
    rw [Span.block?, hlength]
    exact hstore.cut?_append xs tail
  refine ⟨hblock, (hstore.confine tail).toList_store xs, hlength, fun ys => ?_, ?_⟩
  · rw [Span.holds, hblock]
  · rw [Span.display, hblock]

/-- A span that stops at a suffix of its start shows what lies between them. -/
theorem Buffer.Cuts.exists_shows (hstore : Buffer.Cuts store) {u : Span ι}
    (hu : Suffix u.stop u.start) : ∃ xs, u.Shows store xs := by
  obtain ⟨xs, hxs⟩ := hu.exists_toList_eq
  have hconfine : u = Span.confine store xs (Cursor.toList u.stop) := by
    show u = ⟨store (xs ++ Cursor.toList u.stop), store (Cursor.toList u.stop)⟩
    rw [← hxs, hstore.store_toList, hstore.store_toList]
  refine ⟨xs, ?_⟩
  rw [hconfine]
  exact hstore.confine_shows xs _

end Shows

/-! ## The spans that a tree makes -/

section Creates

variable [Cursor ι σ] [Symbol σ]

/-- The spans that are made while a literal is read at `s`: those of its digits, and its own. -/
inductive Parser.LiteralSpan (fraction : Bool) (s : ι) : Span ι → Prop
  | digits {u : Span ι} {r : ι}
      (h : ofClass1 .digit (if startsWith '-' s then Cursor.tail s else s) = .success u r) :
      LiteralSpan fraction s u
  | fraction {v u : Span ι} {t r : ι} (hfraction : fraction = true)
      (h : ofClass1 .digit (if startsWith '-' s then Cursor.tail s else s) = .success v t)
      (hpoint : startsWith '.' t = true)
      (h' : ofClass1 .digit (Cursor.tail t) = .success u r) : LiteralSpan fraction s u
  | whole {descriptor : String} {u : Span ι} {r : ι}
      (h : literal descriptor fraction s = .success u r) : LiteralSpan fraction s u

/-- The spans that a primitive parser makes at an input. -/
inductive Primitive.Creates : {α : Type} → Primitive ι σ α → ι → Span ι → Prop
  | token {pattern : Text} {s r : ι} {u : Span ι} (h : Parser.token pattern s = .success u r) :
      Creates (.token pattern) s u
  | take {n : Nat} {s r : ι} {u : Span ι} (h : Parser.take n s = .success u r) :
      Creates (.take n) s u
  | takeWhileBetween {least most : Nat} {accepts : σ → Bool} {s r : ι} {u : Span ι}
      (h : Parser.takeWhileBetween least most accepts s = .success u r) :
      Creates (.takeWhileBetween least most accepts) s u
  | takeWhile {accepts : σ → Bool} {s r : ι} {u : Span ι}
      (h : Parser.takeWhile accepts s = .success u r) : Creates (.takeWhile accepts) s u
  | takeWhile1 {accepts : σ → Bool} {s r : ι} {u : Span ι}
      (h : Parser.takeWhile1 accepts s = .success u r) : Creates (.takeWhile1 accepts) s u
  | ofClass {k : CharClass} {s r : ι} {u : Span ι} (h : Parser.ofClass k s = .success u r) :
      Creates (.ofClass k) s u
  | ofClass1 {k : CharClass} {s r : ι} {u : Span ι} (h : Parser.ofClass1 k s = .success u r) :
      Creates (.ofClass1 k) s u
  | crlf {s r : ι} {u : Span ι} (h : Parser.crlf s = .success u r) : Creates .crlf s u
  | newline {s r : ι} {u : Span ι} (h : Parser.newline s = .success u r) : Creates .newline s u
  | integer {t : LiteralType} {s : ι} {u : Span ι} (h : Parser.LiteralSpan false s u) :
      Creates (.integer t) s u
  | number {s : ι} {u : Span ι} (h : Parser.LiteralSpan true s u) : Creates .number s u

/-- The spans that a tree makes itself at an input. -/
inductive Grammar.Creates :
    {ε α : Type} → [Diagnostic ε ι] → Grammar ι σ ε α → ι → Span ι → Prop
  | primitive {α : Type} [Diagnostic (ParseError ι) ι] {p : Primitive ι σ α} {s : ι} {u : Span ι}
      (h : p.Creates s u) : Creates (.primitive p) s u
  | integerAs {α : Type} [Diagnostic (ParseError ι) ι] {read : List Char → Except Cause α} {s : ι}
      {u : Span ι} (h : Parser.LiteralSpan false s u) : Creates (.integerAs read) s u
  | spanOf {ε α : Type} [Diagnostic ε ι] {p : Grammar ι σ ε α} {s r : ι} {u : Span ι}
      (h : p.spanOf.parse s = .success u r) : Creates (.spanOf p) s u
  | takeUntil {ε α : Type} [Diagnostic ε ι] {p : Grammar ι σ ε α} {s r : ι} {u : Span ι}
      (h : p.takeUntil.parse s = .success u r) : Creates (.takeUntil p) s u

/-- In a run with this log a tree has made the span. -/
def CreatedIn (log : List (Event ι σ)) (u : Span ι) : Prop :=
  ∃ (ε α : Type) (_ : Diagnostic ε ι) (p : Grammar ι σ ε α) (s : ι),
    Event.enter p s ∈ log ∧ p.Creates s u

end Creates

/-- The span starts at a suffix of `whole` and stops at a suffix of its start. -/
structure Span.CutFrom [Cursor ι σ] (whole : ι) (u : Span ι) : Prop where
  start : Suffix u.start whole
  stop : Suffix u.stop u.start

theorem Span.CutFrom.within [Cursor ι σ] {s whole : ι} {u : Span ι} (h : u.CutFrom s)
    (hs : Suffix s whole) : u.CutFrom whole :=
  ⟨h.start.trans hs, h.stop⟩

/-- The value of the parser is the span of what it takes. -/
def Parser.SpansTaken (p : Parser ι ε (Span ι)) : Prop :=
  ∀ ⦃s r : ι⦄ ⦃u : Span ι⦄, p s = .success u r → u = ⟨s, r⟩

namespace Parser.SpansTaken

theorem spanOf (p : Parser ι ε α) : p.spanOf.SpansTaken := by
  intro s r u h
  unfold Parser.spanOf at h
  split at h
  · cases h
    rfl
  · cases h

theorem label [Diagnostic ε ι] {p : Parser ι ε (Span ι)} (hp : p.SpansTaken) (d : String) :
    (p.label d).SpansTaken := by
  intro s r u h
  unfold Parser.label at h
  split at h
  · rename_i hps
    cases h
    exact hp hps
  · split at h <;> cases h

theorem orElse [Diagnostic ε ι] {p q : Parser ι ε (Span ι)} (hp : p.SpansTaken)
    (hq : q.SpansTaken) : (p.orElse q).SpansTaken := by
  intro s r u h
  unfold Parser.orElse at h
  split at h
  · rename_i hps
    cases h
    exact hp hps
  · split at h
    · cases h
    · split at h
      · rename_i hqs
        cases h
        exact hq hqs
      · split at h <;> cases h

variable [Cursor ι σ]

theorem takeUntil [Diagnostic ε ι] (p : Parser ι ε α) : p.takeUntil.SpansTaken := by
  intro s r u h
  unfold Parser.takeUntil at h
  split at h <;> cases h
  rfl

theorem take (n : Nat) : (Parser.take n : Parser ι (ParseError ι) (Span ι)).SpansTaken := by
  intro s r u h
  unfold Parser.take at h
  split at h
  split at h <;> cases h
  rfl

theorem takeWhileBetween (least most : Nat) (accepts : σ → Bool) :
    (Parser.takeWhileBetween least most accepts :
      Parser ι (ParseError ι) (Span ι)).SpansTaken := by
  intro s r u h
  unfold Parser.takeWhileBetween at h
  split at h
  split at h <;> cases h
  rfl

variable [Symbol σ]

theorem token {κ τ : Type} [Cursor κ τ] [Symbol τ] (pattern : κ) :
    (Parser.token pattern : Parser ι (ParseError ι) (Span ι)).SpansTaken := by
  intro s r u h
  unfold Parser.token at h
  split at h <;> cases h
  rfl

theorem ofClass1 (k : CharClass) :
    (Parser.ofClass1 k : Parser ι (ParseError ι) (Span ι)).SpansTaken :=
  (takeWhileBetween 1 maxCount k.contains).label k.descriptor

theorem crlf : (Parser.crlf : Parser ι (ParseError ι) (Span ι)).SpansTaken :=
  (spanOf _).label "CRLF"

theorem newline : (Parser.newline : Parser ι (ParseError ι) (Span ι)).SpansTaken :=
  ((spanOf _).orElse crlf).label "newline"

theorem literal (d : String) (fraction : Bool) :
    (Parser.literal d fraction : Parser ι (ParseError ι) (Span ι)).SpansTaken := by
  intro s r u h
  unfold Parser.literal at h
  dsimp only at h
  split at h
  · cases h
    rfl
  · split at h <;> cases h

end Parser.SpansTaken

section Cut

variable [Cursor ι σ] {s : ι} {u : Span ι}

theorem Parser.SpansTaken.cutFrom {p : Parser ι ε (Span ι)} (hp : p.SpansTaken)
    (hadv : p.Advances) {r : ι} (h : p s = .success u r) : u.CutFrom s := by
  cases hp h
  exact ⟨.refl s, hadv h⟩

variable [Symbol σ]

theorem Parser.LiteralSpan.cutFrom {fraction : Bool} (h : LiteralSpan fraction s u) :
    u.CutFrom s := by
  have hsign := Parser.Advances.behindSign_suffix s
  cases h with
  | digits h => exact ((SpansTaken.ofClass1 _).cutFrom (.ofClass1 _) h).within hsign
  | fraction _ h _ h' =>
      have hpoint := (Cursor.suffix_tail _).trans ((Parser.Advances.ofClass1 _ h).trans hsign)
      exact ((SpansTaken.ofClass1 _).cutFrom (.ofClass1 _) h').within hpoint
  | whole h => exact (SpansTaken.literal _ _).cutFrom (.literal _ _) h

theorem Primitive.Creates.cutFrom {p : Primitive ι σ α} (h : p.Creates s u) : u.CutFrom s := by
  cases h with
  | token h => exact (Parser.SpansTaken.token _).cutFrom (.token _) h
  | take h => exact (Parser.SpansTaken.take _).cutFrom (.take _) h
  | takeWhileBetween h =>
      exact (Parser.SpansTaken.takeWhileBetween _ _ _).cutFrom (.takeWhileBetween _ _ _) h
  | takeWhile h =>
      exact (Parser.SpansTaken.takeWhileBetween _ _ _).cutFrom (.takeWhileBetween _ _ _) h
  | takeWhile1 h =>
      exact (Parser.SpansTaken.takeWhileBetween _ _ _).cutFrom (.takeWhileBetween _ _ _) h
  | ofClass h =>
      exact (Parser.SpansTaken.takeWhileBetween 0 Parser.maxCount _).cutFrom
        (.takeWhileBetween _ _ _) h
  | ofClass1 h => exact (Parser.SpansTaken.ofClass1 _).cutFrom (.ofClass1 _) h
  | crlf h => exact Parser.SpansTaken.crlf.cutFrom .crlf h
  | newline h => exact Parser.SpansTaken.newline.cutFrom .newline h
  | integer h => exact h.cutFrom
  | number h => exact h.cutFrom

theorem Grammar.Creates.cutFrom [inst : Diagnostic ε ι] {g : Grammar ι σ ε α}
    (hg : g.LeavesSatisfy Parser.Advances) (h : g.Creates s u) : u.CutFrom s := by
  cases h with
  | primitive h => exact h.cutFrom
  | integerAs h => exact h.cutFrom
  | spanOf h => exact (Parser.SpansTaken.spanOf _).cutFrom (Grammar.parse_advances _ hg) h
  | takeUntil h => exact (Parser.SpansTaken.takeUntil _).cutFrom (Grammar.parse_advances _ hg) h

end Cut

/-- **Spans are cuts.**  Every span that is made in a run of a tree whose leaves advance starts at a
suffix of the input and stops at a suffix of its start.  So it can be cut out of its buffer, and what
is cut out, what its symbols are, how long it is, what it equals and how it is displayed all agree.
The span of what a tree takes is the front of the input, up to what it leaves. -/
theorem Grammar.createdIn_shows [Cursor ι σ] [Buffer ι σ] [BEq σ] [Symbol σ] [Diagnostic ε ι]
    {store : List σ → ι} (hstore : Buffer.Cuts store) (g : Grammar ι σ ε α)
    (hg : g.LeavesSatisfy Parser.Advances) (s : ι) :
    (∀ u, CreatedIn (g.log s) u →
      Suffix u.start s ∧ Suffix u.stop u.start ∧ ∃ xs, u.Shows store xs) ∧
    ∀ u r, g.spanOf.parse s = .success u r →
      ∃ xs, Buffer.cut? (Cursor.length s - Cursor.length r) s = some xs ∧ u.Shows store xs := by
  constructor
  · intro u hu
    obtain ⟨ε', β, _, p, t, hev, hcreates⟩ := hu
    obtain ⟨ht, hp⟩ := g.log_within hg hev
    have hcut := (hcreates.cutFrom hp).within ht
    exact ⟨hcut.start, hcut.stop, hstore.exists_shows hcut.stop⟩
  · intro u r h
    have hadv : g.spanOf.parse.Advances := g.spanOf.parse_advances ⟨trivial, hg⟩
    have hcut : u.CutFrom s := (Parser.SpansTaken.spanOf g.parse).cutFrom hadv h
    obtain ⟨xs, hxs⟩ := hstore.exists_shows hcut.stop
    cases Parser.SpansTaken.spanOf g.parse h
    exact ⟨xs, hxs.block?, hxs⟩

/-- Two symbols in angle brackets, the second of which is read by a client's own parser. -/
def bracketed {ι σ : Type} [Cursor ι σ] [Symbol σ] : Grammar ι σ (ParseError ι) (Span ι) :=
  .between (.primitive (.char '<')) (.primitive (.take 2)) (.leaf (Parser.char '>'))

/-- In a text the `é` has two bytes, and as a byte it is one symbol. -/
theorem createdIn_shows_bracketed :
    (Buffer.Cuts Text.ofList ∧ Buffer.Cuts (Slice.ofList : List UInt8 → Slice UInt8)) ∧
    (bracketed.LeavesSatisfy (ι := Text) Parser.Advances ∧
      bracketed.LeavesSatisfy (ι := Slice UInt8) Parser.Advances) ∧
    (⟨.ofString "é1>x", .ofString ">x"⟩ : Span Text).Shows Text.ofList ['é', '1'] ∧
    (⟨latin1 "<é1>x", latin1 "x"⟩ : Span (Slice UInt8)).Shows Slice.ofList [60, 233, 49, 62] := by
  have htext : (bracketed (ι := Text)).LeavesSatisfy Parser.Advances :=
    ⟨trivial, trivial, trivial, Parser.Advances.symbolWhere _ _⟩
  have hslice : (bracketed (ι := Slice UInt8)).LeavesSatisfy Parser.Advances :=
    ⟨trivial, trivial, trivial, Parser.Advances.symbolWhere _ _⟩
  have hcreated : CreatedIn ((bracketed (ι := Text)).log (.ofString "<é1>x"))
      ⟨.ofString "é1>x", .ofString ">x"⟩ :=
    ⟨_, _, inferInstance, _, _, List.mem_of_getElem? (i := 3) rfl, .primitive (.take rfl)⟩
  obtain ⟨-, -, xs, hxs⟩ :=
    (bracketed.createdIn_shows Text.cuts htext (.ofString "<é1>x")).1 _ hcreated
  obtain ⟨ys, hcut, hys⟩ :=
    (bracketed.createdIn_shows Slice.cuts hslice (latin1 "<é1>x")).2 _ (latin1 "x") rfl
  cases hxs.block?
  cases hcut
  exact ⟨⟨Text.cuts, Slice.cuts⟩, ⟨htext, hslice⟩, hxs, hys⟩

end ParserAlgebra
