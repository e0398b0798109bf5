import ParserAlgebra.Proofs.Counting
import ParserAlgebra.Proofs.SpanCuts

/-!
# Spans in a row

Parsers run one after another thread what remains from each to the next.  Where the value of each is
the span of what it takes, the spans are laid end to end: nothing of the input is lost between them,
and nothing is in two of them.

* `Span.Tiles` — spans laid end to end, from one place of the input to another.
* `Span.Covers` — moreover their texts and what is left make up the input
  (`Span.Tiles.covers`).
* `Parser.InTurn.tiles` — the values of parsers run in turn.
* `Parser.repeated_spans_cover` — repetitions and sequences of such parsers.
-/

set_option autoImplicit false

namespace ParserAlgebra

open Cursor (Suffix)

variable {ι σ ε α : Type}

namespace Span

variable [Cursor ι σ]

/-- Cuts of the input from one place to another: the first starts there, each starts where the one
before it stops, and the last stops at the other. -/
inductive Tiles : ι → List (Span ι) → ι → Prop
  | nil (s : ι) : Tiles s [] s
  | cons {u : Span ι} {us : List (Span ι)} {r : ι} (hu : Suffix u.stop u.start)
      (h : Tiles u.stop us r) : Tiles u.start (u :: us) r

/-- The spans are laid end to end, and their texts in order, followed by what is left, are the
input. -/
structure Covers [Buffer ι σ] [BEq σ] [Symbol σ] (store : List σ → ι) (s : ι)
    (us : List (Span ι)) (r : ι) : Prop where
  tiles : Tiles s us r
  texts : ∃ xss, List.Forall₂ (fun u xs => u.Shows store xs) us xss ∧
    s = store (xss.flatten ++ Cursor.toList r)

variable [Buffer ι σ] [BEq σ] [Symbol σ] {store : List σ → ι}

theorem Tiles.covers (hstore : Buffer.Cuts store) {s r : ι} {us : List (Span ι)}
    (h : Tiles s us r) : Covers store s us r := by
  refine ⟨h, ?_⟩
  induction h with
  | nil s => exact ⟨[], .nil, (hstore.store_toList s).symm⟩
  | @cons u us r hu _ ih =>
      obtain ⟨xs, hxs⟩ := hstore.exists_shows hu
      obtain ⟨xss, hxss, hstop⟩ := ih
      have hrest : Cursor.toList u.stop = xss.flatten ++ Cursor.toList r := by
        rw [hstop, hstore.toList_store]
      have hstart : Cursor.toList u.start = xs ++ (xss.flatten ++ Cursor.toList r) := by
        rw [← hu.toList_span, ← hrest, hxs.toList]
      refine ⟨xs :: xss, .cons hxs hxss, ?_⟩
      rw [List.flatten_cons, List.append_assoc, ← hstart, hstore.store_toList]

end Span

namespace Parser

section InTurn

variable [Cursor ι σ] [Diagnostic ε ι] {p : Parser ι ε α} {s r : ι} {as : List α}

theorem inTurn_of_many1 (h : many1 p s = .success as r) :
    InTurn (List.replicate as.length p) s as r := by
  unfold many1 at h
  split at h
  · rename_i hs
    split at h
    · obtain ⟨bs, rfl, hbs⟩ := prepend_eq_ok_iff.1 (Outcome.ofExcept_eq_success_iff.1 h)
      exact .cons hs (inTurn_of_gather hbs).1
    · cases h
  · cases h

end InTurn

section Covers

variable [Cursor ι σ]

/-- The spans of what parsers take in turn are laid end to end. -/
theorem InTurn.tiles {ps : List (Parser ι ε (Span ι))}
    (hps : ∀ p ∈ ps, p.SpansTaken ∧ p.Advances) {s r : ι} {us : List (Span ι)}
    (h : InTurn ps s us r) : Span.Tiles s us r := by
  induction h with
  | nil s => exact .nil s
  | @cons p ps s r t u us hp _ ih =>
      obtain ⟨hspan, hadv⟩ := hps p List.mem_cons_self
      have hrest := ih fun q hq => hps q (List.mem_cons_of_mem _ hq)
      cases hspan hp
      exact .cons (u := ⟨s, r⟩) (hadv hp) hrest

variable [Buffer ι σ] [BEq σ] [Symbol σ] {store : List σ → ι} (hstore : Buffer.Cuts store)

include hstore

theorem covers_of_inTurn {ps : List (Parser ι ε (Span ι))}
    (hps : ∀ p ∈ ps, p.SpansTaken ∧ p.Advances) {s r : ι} {us : List (Span ι)}
    (h : InTurn ps s us r) : Span.Covers store s us r :=
  (h.tiles hps).covers hstore

/-- **No loss, no duplication.**  Where a parser that leaves a suffix of its input is repeated for
the spans of what it takes, as often as it matches or a number of times, and where such parsers are
run in sequence, the spans are laid end to end, from the input to what remains.  Their texts in
order and what remains are the input. -/
theorem repeated_spans_cover [Diagnostic ε ι] (s : ι) :
    (∀ {α : Type} (p : Parser ι ε α), p.Advances → ∀ us r,
      (many p.spanOf s = .success us r → Span.Covers store s us r) ∧
      (many1 p.spanOf s = .success us r → Span.Covers store s us r) ∧
      ∀ n, times p.spanOf n s = .success us r → Span.Covers store s us r) ∧
    ∀ ps : List ((α : Type) × Parser ι ε α), (∀ p ∈ ps, p.2.Advances) → ∀ us r,
      sequence (ps.map fun p => p.2.spanOf) s = .success us r → Span.Covers store s us r := by
  constructor
  · intro α p hp us r
    have hone : ∀ n, ∀ q ∈ List.replicate n p.spanOf, q.SpansTaken ∧ q.Advances := by
      intro n q hq
      cases List.eq_of_mem_replicate hq
      exact ⟨.spanOf p, hp.spanOf⟩
    refine ⟨fun h => ?_, fun h => ?_, fun n h => ?_⟩
    · exact covers_of_inTurn hstore (hone _) (inTurn_of_many h).1
    · exact covers_of_inTurn hstore (hone _) (inTurn_of_many1 h)
    · exact covers_of_inTurn hstore (hone _) (inTurn_of_times h)
  · intro ps hps us r h
    refine covers_of_inTurn hstore ?_ (sequence_eq_success_iff.1 h)
    intro q hq
    obtain ⟨p, hp, rfl⟩ := List.mem_map.1 hq
    exact ⟨.spanOf p.2, (hps p hp).spanOf⟩

end Covers

theorem noBang_advances : noBang.Advances := (Advances.symbolWhere _ _).tryMap _

/-- Two bytes, and one more. -/
def twoAndOne : List ((α : Type) × Parser (Slice UInt8) (ParseError (Slice UInt8)) α) :=
  [⟨_, take 2⟩, ⟨_, anySymbol⟩]

/-- Two symbols of `éa,` one by one, and the bytes of `éab` by parsers of two kinds. -/
theorem repeated_spans_cover_twoAndOne :
    (Buffer.Cuts Text.ofList ∧ Buffer.Cuts (Slice.ofList : List UInt8 → Slice UInt8)) ∧
    (noBang.Advances ∧ ∀ p ∈ twoAndOne, p.2.Advances) ∧
    many noBang.spanOf (.ofString "éa,") =
      .success [⟨.ofString "éa,", .ofString "a,"⟩, ⟨.ofString "a,", .ofString ","⟩]
        (.ofString ",") ∧
    Span.Covers Text.ofList (.ofString "éa,")
      [⟨.ofString "éa,", .ofString "a,"⟩, ⟨.ofString "a,", .ofString ","⟩] (.ofString ",") ∧
    sequence (twoAndOne.map fun p => p.2.spanOf) (latin1 "éab!") =
      .success [⟨latin1 "éab!", latin1 "b!"⟩, ⟨latin1 "b!", latin1 "!"⟩] (latin1 "!") ∧
    Span.Covers Slice.ofList (latin1 "éab!")
      [⟨latin1 "éab!", latin1 "b!"⟩, ⟨latin1 "b!", latin1 "!"⟩] (latin1 "!") := by
  have hbytes : ∀ p ∈ twoAndOne, p.2.Advances :=
    List.forall_mem_cons.2 ⟨.take 2, List.forall_mem_cons.2 ⟨.anySymbol, List.forall_mem_nil _⟩⟩
  have hmany : many noBang.spanOf (.ofString "éa,") =
      .success [⟨.ofString "éa,", .ofString "a,"⟩, ⟨.ofString "a,", .ofString ","⟩]
        (.ofString ",") :=
    (many_eq_success_iff noBang_shortens.spanOf).2
      ⟨.cons rfl (.cons rfl (.nil _)), _, _, rfl, rfl⟩
  obtain ⟨htext, -⟩ :=
    repeated_spans_cover (ε := ParseError Text) Text.cuts (.ofString "éa,")
  obtain ⟨-, hslice⟩ := repeated_spans_cover (ε := ParseError (Slice UInt8))
    (Slice.cuts (σ := UInt8)) (latin1 "éab!")
  refine ⟨⟨Text.cuts, Slice.cuts⟩, ⟨noBang_advances, hbytes⟩, hmany, ?_, rfl, ?_⟩
  · exact (htext noBang noBang_advances _ _).1 hmany
  · exact hslice twoAndOne hbytes _ _ rfl

end Parser

end ParserAlgebra
