import ParserAlgebra.Proofs.SpanCuts

/-!
# Spans between any two ends

Nothing makes sure that the two ends of a span belong to one buffer.  All that counts of the end is
how long it is, so a span is a number of units at the front of its start, and these may end inside a
symbol.  Taking symbols one by one then goes on to the end of that symbol.  All the other views look
at the units at once, and have nothing to show if they do not end between two symbols.

* `Cursor.Yields` — what is taken from a cursor one by one, up to the end.
* `Storage.Front` — the first symbols that make up a number of units, or just more.
* `Storage.front_span` — these are what a span yields.
* `Buffer.Exact` — buffers that are cut between symbols and nowhere else.
* `Span.Settled` — how the views of a span come out, on a border between symbols and off it.
* `Span.settled_between` — texts and slices, for any two ends.
-/

set_option autoImplicit false

namespace ParserAlgebra

variable {ι σ : Type}

/-! ## Iteration -/

/-- Taking symbols one by one comes to an end, and gives `xs`. -/
inductive Cursor.Yields [Cursor ι σ] : ι → List σ → Prop
  | done {s : ι} (h : next? s = none) : Yields s []
  | next {s t : ι} {x : σ} {xs : List σ} (h : next? s = some (x, t)) (h' : Yields t xs) :
      Yields s (x :: xs)

theorem Cursor.yields_toList [Cursor ι σ] (s : ι) : Yields s (toList s) := by
  cases h : next? s with
  | none =>
      rw [toList_of_none h]
      exact .done h
  | some p =>
      obtain ⟨x, t⟩ := p
      have hlt := length_lt_of_next? h
      rw [toList_of_some h]
      exact .next h (yields_toList t)
termination_by length s
decreasing_by exact hlt

theorem Cursor.Yields.toList_eq [Cursor ι σ] {s : ι} {xs : List σ} (h : Yields s xs) :
    toList s = xs := by
  induction h with
  | done h => exact toList_of_none h
  | next h _ ih => rw [toList_of_some h, ih]

/-! ## The front of a buffer -/

namespace Storage

/-- The shortest of the runs of symbols at the front of `whole` that take up at least `n` units. -/
structure Front [Cursor ι σ] (store : List σ → ι) (n : Nat) (whole xs : List σ) : Prop where
  first : xs <+: whole
  enough : n ≤ Cursor.length (store xs)
  shortest : ∀ ys, ys <+: whole → n ≤ Cursor.length (store ys) → xs <+: ys

/-- Some of the first symbols of `whole` take up `n` units, no more and no less. -/
def Border [Cursor ι σ] (store : List σ → ι) (n : Nat) (whole : List σ) : Prop :=
  ∃ xs, xs <+: whole ∧ Cursor.length (store xs) = n

variable [Cursor ι σ] {store : List σ → ι}

theorem Front.zero (store : List σ → ι) (whole : List σ) : Front store 0 whole [] where
  first := List.nil_prefix
  enough := Nat.zero_le _
  shortest _ _ _ := List.nil_prefix

variable (h : Storage store)

include h

theorem length_cons (x : σ) (xs : List σ) :
    Cursor.length (store (x :: xs)) = Cursor.length (store [x]) + Cursor.length (store xs) :=
  h.length_append [x] xs

/-- More symbols take up more units. -/
theorem eq_of_prefix_of_length_le {xs ys : List σ} (hxs : xs <+: ys)
    (hle : Cursor.length (store ys) ≤ Cursor.length (store xs)) : xs = ys := by
  obtain ⟨zs, rfl⟩ := hxs
  have hlength := h.length_append xs zs
  have hzero : Cursor.length (store zs) = 0 := by omega
  have hnil : zs = [] := by
    rw [← h.toList_store zs, Cursor.toList_eq_nil_iff, hzero]
  rw [hnil, List.append_nil]

theorem front_cons {n : Nat} (hn : n ≠ 0) {x : σ} {whole xs : List σ}
    (hxs : Front store (n - Cursor.length (store [x])) whole xs) :
    Front store n (x :: whole) (x :: xs) := by
  refine ⟨List.cons_prefix_cons.2 ⟨rfl, hxs.first⟩, ?_, fun ys hys hle => ?_⟩
  · have henough := hxs.enough
    rw [h.length_cons]
    omega
  · cases ys with
    | nil =>
        rw [h.length_nil] at hle
        omega
    | cons y ys =>
        obtain ⟨rfl, hrest⟩ := List.cons_prefix_cons.1 hys
        rw [h.length_cons] at hle
        exact List.cons_prefix_cons.2 ⟨rfl, hxs.shortest ys hrest (by omega)⟩

/-- On a border there is nothing to go beyond. -/
theorem front_eq {n : Nat} {whole xs ys : List σ} (hxs : Front store n whole xs)
    (hys : ys <+: whole) (hlength : Cursor.length (store ys) = n) : xs = ys := by
  have hle := hxs.shortest ys hys (Nat.le_of_eq hlength.symm)
  refine h.eq_of_prefix_of_length_le hle ?_
  rw [hlength]
  exact hxs.enough

/-- With every symbol that is taken, the span gets shorter by what the symbol takes up, or ends. -/
theorem front_span (whole : List σ) (stop : ι) :
    Front store (Cursor.length (store whole) - Cursor.length stop) whole
      (Cursor.toList (⟨store whole, stop⟩ : Span ι)) := by
  induction whole with
  | nil =>
      have hnil := h.length_nil
      have hempty : Cursor.toList (⟨store [], stop⟩ : Span ι) = [] := by
        rw [Cursor.toList_eq_nil_iff]
        show Cursor.length (store []) - Cursor.length stop = 0
        omega
      have hzero : Cursor.length (store []) - Cursor.length stop = 0 := by omega
      rw [hempty, hzero]
      exact .zero store []
  | cons x xs ih =>
      have hnext := h.next?_between x xs stop
      have hcons := h.length_cons x xs
      by_cases hle : Cursor.length (store (x :: xs)) ≤ Cursor.length stop
      · rw [if_pos hle] at hnext
        rw [Cursor.toList_of_none hnext, Nat.sub_eq_zero_of_le hle]
        exact .zero store (x :: xs)
      · rw [if_neg hle] at hnext
        rw [Cursor.toList_of_some hnext]
        refine h.front_cons (by omega) ?_
        -- what is left of the span behind the symbol, also if the symbol reaches beyond its end
        have hrest : Cursor.length (store (x :: xs)) - Cursor.length stop -
            Cursor.length (store [x]) = Cursor.length (store xs) - Cursor.length stop := by
          omega
        rw [hrest]
        exact ih

end Storage

/-! ## Cuts -/

/-- A buffer that is cut between symbols and nowhere else. -/
structure Buffer.Exact [Cursor ι σ] [Buffer ι σ] (store : List σ → ι) : Prop extends
    Buffer.Cuts store where
  cut?_eq_some {n : Nat} {s : ι} {xs : List σ} (h : Buffer.cut? n s = some xs) :
    xs <+: Cursor.toList s ∧ Cursor.length (store xs) = n

theorem Text.cutList?_eq_some {n : Nat} {cs ds : List Char} (h : cutList? n cs = some ds) :
    ds <+: cs ∧ utf8Length ds = n := by
  fun_induction cutList? n cs generalizing ds with
  | case1 cs =>
      cases h
      exact ⟨List.nil_prefix, rfl⟩
  | case2 => cases h
  | case3 n c cs hle ih =>
      obtain ⟨es, hes, rfl⟩ := Option.map_eq_some_iff.1 h
      obtain ⟨hfirst, hlength⟩ := ih hes
      refine ⟨List.cons_prefix_cons.2 ⟨rfl, hfirst⟩, ?_⟩
      rw [utf8Length]
      omega
  | case4 => cases h

theorem Text.exact : Buffer.Exact Text.ofList where
  toCuts := Text.cuts
  cut?_eq_some {n s xs} h := by
    rw [Text.toList_eq]
    exact Text.cutList?_eq_some h

theorem Slice.cut?_eq_some {n : Nat} {s : Slice σ} {xs : List σ} (h : s.cut? n = some xs) :
    xs <+: s.items ∧ xs.length = n := by
  unfold Slice.cut? at h
  split at h <;> cases h
  rename_i hle
  refine ⟨List.take_prefix n s.items, ?_⟩
  rw [List.length_take, ← s.size_eq]
  omega

theorem Slice.exact : Buffer.Exact (Slice.ofList : List σ → Slice σ) where
  toCuts := Slice.cuts
  cut?_eq_some {n s xs} h := by
    rw [Slice.toList_eq]
    exact Slice.cut?_eq_some h

/-! ## Views -/

open Storage (Front Border)

/-- How the views of a span come out.  What it yields is the front of its start.  If the units of the
span end on a border, it looks from all sides like the text in front of that border.  If they do
not, there is no text that it could be taken or displayed for. -/
structure Span.Settled [Cursor ι σ] [Buffer ι σ] [BEq σ] [Symbol σ] (store : List σ → ι)
    (u : Span ι) : Prop where
  yields : Cursor.Yields u u.toList
  front : Front store u.length (Cursor.toList u.start) u.toList
  onBorder (xs : List σ) (hfirst : xs <+: Cursor.toList u.start)
    (hlength : Cursor.length (store xs) = u.length) : u.Shows store xs
  offBorder (h : ¬ Border store u.length (Cursor.toList u.start)) :
    u.block? = none ∧ (∀ ys, u.holds ys = false) ∧ u.display = ""

section Settled

variable [Cursor ι σ] [Buffer ι σ] {store : List σ → ι}

section Exact

variable (hstore : Buffer.Exact store) (u : Span ι)

include hstore

theorem Buffer.Exact.front_toList : Front store u.length (Cursor.toList u.start) u.toList := by
  have hfront := hstore.front_span (Cursor.toList u.start) u.stop
  rw [hstore.store_toList] at hfront
  exact hfront

theorem Buffer.Exact.block?_eq_some {xs : List σ} (hfirst : xs <+: Cursor.toList u.start)
    (hlength : Cursor.length (store xs) = u.length) : u.block? = some xs := by
  have hstart := hstore.store_toList u.start
  obtain ⟨ys, hys⟩ := hfirst
  rw [Span.block?, ← hlength, ← hstart, ← hys]
  exact hstore.cut?_append xs ys

theorem Buffer.Exact.block?_eq_none (h : ¬ Border store u.length (Cursor.toList u.start)) :
    u.block? = none := by
  cases hblock : u.block? with
  | none => rfl
  | some xs =>
      obtain ⟨hfirst, hlength⟩ := hstore.cut?_eq_some hblock
      exact absurd ⟨xs, hfirst, hlength⟩ h

theorem Buffer.Exact.settled [BEq σ] [Symbol σ] : u.Settled store where
  yields := Cursor.yields_toList u
  front := hstore.front_toList u
  onBorder xs hfirst hlength := by
    have hblock := hstore.block?_eq_some u hfirst hlength
    have hsymbols := hstore.front_eq (hstore.front_toList u) hfirst hlength
    refine ⟨hblock, hsymbols, hlength.symm, fun ys => ?_, ?_⟩
    · rw [Span.holds, hblock]
    · rw [Span.display, hblock]
  offBorder h := by
    have hblock := hstore.block?_eq_none u h
    refine ⟨hblock, fun ys => ?_, ?_⟩
    · rw [Span.holds, hblock]
    · rw [Span.display, hblock]

end Exact

/-- In a slice there is a border behind every unit. -/
theorem Slice.shows_take [BEq σ] [Symbol σ] (u : Span (Slice σ)) :
    u.Shows Slice.ofList (u.start.items.take u.length) := by
  have hle : u.length ≤ u.start.items.length := by
    rw [← u.start.size_eq]
    exact Nat.sub_le _ _
  have hlength : (u.start.items.take u.length).length = u.length := by
    rw [List.length_take]
    omega
  have hfirst : u.start.items.take u.length <+: Cursor.toList u.start := by
    rw [Slice.toList_eq]
    exact List.take_prefix _ _
  exact (Slice.exact.settled u).onBorder _ hfirst hlength

/-- Spans that look like texts are equal if the texts are. -/
theorem Span.Shows.beq_iff [BEq σ] [LawfulBEq σ] [Symbol σ] {u v : Span ι} {xs ys : List σ}
    (hu : u.Shows store xs) (hv : v.Shows store ys) :
    (u == v) = true ↔ u.holds ys = true := by
  rw [Span.beq_iff, hu.length, hv.length, hu.toList, hv.toList, hu.holds, beq_iff_eq]
  constructor
  · rintro ⟨-, hxs⟩
    exact hxs
  · rintro rfl
    exact ⟨rfl, rfl⟩

end Settled

/-- **Spans between any two ends.**  Take two texts, or two slices, of one buffer or not, and let `n`
be how much longer the first is, or zero.  The span between them yields the shortest run of symbols
at the front of the first that takes up at least `n` units, and then ends.  If a run takes up just
`n` units, it is what the span yields, the block that it is converted into, what it is displayed as,
and the one text that it equals; in a slice there always is one.  If there is none, the span has no
block, so that the conversion is refused, equals no text, and is displayed as nothing.  Two spans
are equal if their lengths and their symbols are; if both look like texts, a span equals the other
one if it equals its text. -/
theorem Span.settled_between :
    (∀ start stop : Text, Settled Text.ofList (⟨start, stop⟩ : Span Text)) ∧
    (∀ {σ : Type} [BEq σ] [Symbol σ] (start stop : Slice σ),
      Settled Slice.ofList (⟨start, stop⟩ : Span (Slice σ)) ∧
      Shows Slice.ofList (⟨start, stop⟩ : Span (Slice σ))
        (start.items.take (start.size - stop.size))) ∧
    ∀ {ι σ : Type} [Cursor ι σ] [Buffer ι σ] [BEq σ] [LawfulBEq σ] [Symbol σ] (u v : Span ι),
      ((u == v) = true ↔ u.length = v.length ∧ u.toList = v.toList) ∧
      ∀ (store : List σ → ι) (xs ys : List σ), u.Shows store xs → v.Shows store ys →
        ((u == v) = true ↔ u.holds ys = true) := by
  refine ⟨fun start stop => ?_, fun start stop => ⟨?_, ?_⟩, fun u v => ⟨?_, fun store xs ys => ?_⟩⟩
  · exact Text.exact.settled _
  · exact Slice.exact.settled _
  · exact Slice.shows_take ⟨start, stop⟩
  · exact Span.beq_iff
  · exact Span.Shows.beq_iff

/-- The span from `éab` to a text of two bytes that lies elsewhere. -/
def accented : Span Text := ⟨.ofString "éab", .ofString "xy"⟩

/-- The span from `aé!` to the same text, whose second byte is inside the `é`. -/
def acrossAccent : Span Text := ⟨.ofString "aé!", .ofString "xy"⟩

theorem acrossAccent_not_border :
    ¬ Border Text.ofList acrossAccent.length (Cursor.toList acrossAccent.start) := by
  rintro ⟨xs, hfirst, hlength⟩
  rw [Text.toList_eq] at hfirst
  have htake := List.prefix_iff_eq_take.1 hfirst
  have hle := hfirst.length_le
  have hshort : ∀ n, n ≤ 3 → utf8Length (['a', 'é', '!'].take n) ≠ 2 := by decide
  rw [htake] at hlength
  exact hshort xs.length hle hlength

/-- One of these spans ends on a border and the other one does not.  The one that does looks like
any other `é`. -/
theorem Span.settled_between_accents :
    (['é'] <+: Cursor.toList accented.start ∧ utf8Length ['é'] = accented.length) ∧
    accented.Shows Text.ofList ['é'] ∧
    ¬ Border Text.ofList acrossAccent.length (Cursor.toList acrossAccent.start) ∧
    (Front Text.ofList 2 ['a', 'é', '!'] ['a', 'é'] ∧ acrossAccent.block? = none ∧
      acrossAccent.holds ['a', 'é'] = false ∧ acrossAccent.display = "") ∧
    (accented == ⟨.ofString "é", .ofString ""⟩) = true ∧
    Shows Slice.ofList (⟨latin1 "éab", latin1 "x"⟩ : Span (Slice UInt8)) [233, 97] := by
  obtain ⟨htext, hslice, hequal⟩ := Span.settled_between
  have hfirst : ['é'] <+: Cursor.toList accented.start := by
    rw [Text.toList_eq]
    exact List.prefix_append ['é'] ['a', 'b']
  have hlength : utf8Length ['é'] = accented.length := by decide
  have hshows : accented.Shows Text.ofList ['é'] := (htext _ _).onBorder _ hfirst hlength
  have hacross : acrossAccent.Settled Text.ofList := htext _ _
  have hsymbols : acrossAccent.toList = ['a', 'é'] :=
    Cursor.Yields.toList_eq (.next rfl (.next rfl (.done rfl)))
  have hfront := hacross.front
  obtain ⟨hblock, hholds, hdisplay⟩ := hacross.offBorder acrossAccent_not_border
  have halone : (⟨.ofString "é", .ofString ""⟩ : Span Text).Shows Text.ofList ['é'] := by
    refine (htext _ _).onBorder _ ?_ rfl
    rw [Text.toList_eq]
    exact List.prefix_append ['é'] []
  rw [hsymbols, Text.toList_eq] at hfront
  refine ⟨⟨hfirst, hlength⟩, hshows, acrossAccent_not_border, ⟨hfront, hblock, hholds _, hdisplay⟩,
    ?_, ?_⟩
  · rw [(hequal _ _).2 _ _ _ hshows halone, hshows.holds]
    decide
  · exact (hslice _ _).2

end ParserAlgebra
