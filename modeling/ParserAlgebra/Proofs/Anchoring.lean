import ParserAlgebra.Proofs.Plan

/-!
# Where failures are anchored

The input that comes with a failure is the one that its tree was given, whatever had been read
before the failure.  The one exception are a client's own parsers, which may anchor their failures
wherever they like, and the trees that hand on the failure of a part as it is.  All of these run the
part on their own input, so such a failure still comes from a parser that was run there.

* `Grammar.HandsOn` — the trees that hand a failure on.
* `Grammar.anchored_plan` — all the others anchor their failures at their input.
* `Grammar.parse_failure_origin` — the origin of every failure.
-/

set_option autoImplicit false

namespace ParserAlgebra

variable {ι σ ε ε' α β : Type}

/-! ## Parsers that anchor their failures -/

/-- Every failure of the parser is anchored at its input. -/
def Parser.Anchored (p : Parser ι ε α) : Prop :=
  ∀ ⦃s : ι⦄ ⦃e : ε⦄ ⦃o : ι⦄, p s = .failure e o → o = s

namespace Parser.Anchored

theorem map {p : Parser ι ε α} (hp : p.Anchored) (f : α → β) : (p.map f).Anchored := by
  intro s e o h
  unfold Parser.map Outcome.map at h
  split at h
  · cases h
  · rename_i hps
    cases h
    exact hp hps

theorem mapError {p : Parser ι ε α} (hp : p.Anchored) (f : ε → ε') : (p.mapError f).Anchored := by
  intro s e o h
  unfold Parser.mapError at h
  split at h
  · cases h
  · rename_i hps
    cases h
    exact hp hps

theorem label [Diagnostic ε ι] {p : Parser ι ε α} (hp : p.Anchored) (d : String) :
    (p.label d).Anchored := by
  intro s e o h
  unfold Parser.label at h
  split at h
  · cases h
  · rename_i hps
    split at h <;> cases h <;> exact hp hps

theorem orElse [Diagnostic ε ι] {p q : Parser ι ε α} (hp : p.Anchored) (hq : q.Anchored) :
    (p.orElse q).Anchored := by
  intro s e o h
  unfold Parser.orElse at h
  split at h
  · cases h
  · rename_i hps
    split at h
    · cases h
      exact hp hps
    · split at h
      · cases h
      · rename_i hqs
        split at h
        · cases h
          exact hq hqs
        · cases h
          rfl

theorem tryEach_origin [Diagnostic ε ι] (s : ι) (tried : Option ε) {ps : List (Parser ι ε α)}
    (hps : ∀ p ∈ ps, p.Anchored) {e : ε} {o : ι} (h : Parser.tryEach s tried ps = .failure e o) :
    o = s := by
  fun_induction Parser.tryEach s tried ps with
  | case1 =>
      cases h
      rfl
  | case2 =>
      cases h
      rfl
  | case3 => cases h
  | case4 _ p ps f t hp =>
      cases h
      exact hps p List.mem_cons_self hp
  | case5 p ps _ _ _ _ ih => exact ih (fun q hq => hps q (List.mem_cons_of_mem p hq)) h
  | case6 p ps _ _ _ _ _ ih => exact ih (fun q hq => hps q (List.mem_cons_of_mem p hq)) h

theorem firstOf [Diagnostic ε ι] {ps : List (Parser ι ε α)} (hps : ∀ p ∈ ps, p.Anchored) :
    (Parser.firstOf ps).Anchored :=
  fun s _ _ h => tryEach_origin s none hps h

theorem spanOf (p : Parser ι ε α) : p.spanOf.Anchored := by
  intro s e o h
  unfold Parser.spanOf at h
  split at h <;> cases h
  rfl

variable [Cursor ι σ]

theorem complete [Diagnostic ε ι] {p : Parser ι ε α} (hp : p.Anchored) : p.complete.Anchored := by
  intro s e o h
  unfold Parser.complete at h
  split at h
  · split at h <;> cases h
    rfl
  · rename_i hps
    cases h
    exact hp hps

/-! ## Primitives -/

theorem endOfInput [Diagnostic ε ι] : (Parser.endOfInput : Parser ι ε Unit).Anchored := by
  intro s e o h
  unfold Parser.endOfInput at h
  split at h <;> cases h
  rfl

theorem symbolWhere (d : String) (accepts : σ → Bool) :
    (Parser.symbolWhere d accepts : Parser ι (ParseError ι) σ).Anchored := by
  intro s e o h
  unfold Parser.symbolWhere at h
  split at h
  · split at h <;> cases h
    rfl
  · cases h
    rfl

theorem anySymbol : (Parser.anySymbol : Parser ι (ParseError ι) σ).Anchored := by
  intro s e o h
  unfold Parser.anySymbol at h
  split at h <;> cases h
  rfl

theorem take (n : Nat) : (Parser.take n : Parser ι (ParseError ι) (Span ι)).Anchored := by
  intro s e o h
  unfold Parser.take at h
  split at h
  split at h <;> cases h
  rfl

theorem takeWhileBetween (least most : Nat) (accepts : σ → Bool) :
    (Parser.takeWhileBetween least most accepts : Parser ι (ParseError ι) (Span ι)).Anchored := by
  intro s e o h
  unfold Parser.takeWhileBetween at h
  split at h
  split at h <;> cases h
  rfl

variable [Symbol σ]

theorem token {κ τ : Type} [Cursor κ τ] [Symbol τ] (pattern : κ) :
    (Parser.token pattern : Parser ι (ParseError ι) (Span ι)).Anchored := by
  intro s e o h
  unfold Parser.token at h
  split at h <;> cases h
  rfl

theorem named (d : String) (c : Char) :
    (Parser.named d c : Parser ι (ParseError ι) σ).Anchored :=
  (symbolWhere "Satisfy" _).label d

theorem ofClass1 (k : CharClass) :
    (Parser.ofClass1 k : Parser ι (ParseError ι) (Span ι)).Anchored :=
  (takeWhileBetween 1 Parser.maxCount k.contains).label k.descriptor

theorem crlf : (Parser.crlf : Parser ι (ParseError ι) (Span ι)).Anchored :=
  (spanOf _).label "CRLF"

theorem newline : (Parser.newline : Parser ι (ParseError ι) (Span ι)).Anchored :=
  ((spanOf Parser.lineFeed).orElse crlf).label "newline"

theorem literal (d : String) (fraction : Bool) :
    (Parser.literal d fraction : Parser ι (ParseError ι) (Span ι)).Anchored := by
  intro s e o h
  unfold Parser.literal at h
  dsimp only at h
  split at h
  · cases h
  · split at h <;> cases h <;> rfl

theorem convert {lit : Parser ι (ParseError ι) (Span ι)} (hlit : lit.Anchored)
    (read : List Char → Except Cause α) : (Parser.convert read lit).Anchored := by
  intro s e o h
  unfold Parser.convert at h
  split at h
  · split at h <;> cases h
    rfl
  · rename_i hl
    cases h
    exact hlit hl

theorem integerAs (read : List Char → Except Cause α) :
    (Parser.integerAs read : Parser ι (ParseError ι) α).Anchored :=
  (literal "integer" false).convert read

theorem integer (t : LiteralType) :
    (Parser.integer t : Parser ι (ParseError ι) Int).Anchored :=
  integerAs _

theorem number : (Parser.number : Parser ι (ParseError ι) Float).Anchored :=
  (literal "number" true).convert _

end Parser.Anchored

/-- Every primitive parser anchors its failures at its input. -/
theorem Primitive.parse_anchored [Cursor ι σ] [Symbol σ] (p : Primitive ι σ α) :
    p.parse.Anchored := by
  cases p with
  | char c => exact .symbolWhere _ _
  | oneOf set => exact .symbolWhere _ _
  | noneOf set => exact .symbolWhere _ _
  | satisfy accepts => exact .symbolWhere _ accepts
  | anySymbol => exact .anySymbol
  | lineFeed => exact .named "LF" '\n'
  | carriageReturn => exact .named "CR" '\r'
  | space => exact .named "space" ' '
  | tab => exact .named "tab" '\t'
  | token pattern => exact .token pattern
  | take n => exact .take n
  | takeWhileBetween least most accepts => exact .takeWhileBetween least most accepts
  | takeWhile accepts => exact .takeWhileBetween 0 Parser.maxCount accepts
  | takeWhile1 accepts => exact .takeWhileBetween 1 Parser.maxCount accepts
  | ofClass k => exact .takeWhileBetween 0 Parser.maxCount k.contains
  | ofClass1 k => exact .ofClass1 k
  | crlf => exact .crlf
  | newline => exact .newline
  | integer t => exact .integer t
  | number => exact .number

/-! ## Plans that anchor their failures -/

/-- If the plan fails, the failure is anchored at `anchor`. -/
def Plan.Anchored (anchor : ι) (plan : Plan ι σ ε α) : Prop :=
  ∀ ⦃e : ε⦄ ⦃o : ι⦄, plan.outcome = .failure e o → o = anchor

namespace Plan.Anchored

variable {anchor s : ι}

theorem success (a : α) (r : ι) :
    (Plan.answer (.success a r) : Plan ι σ ε α).Anchored anchor := by
  intro e o h
  cases h

theorem answer {p : Parser ι ε α} (hp : p.Anchored) (s : ι) :
    (Plan.answer (p s) : Plan ι σ ε α).Anchored s :=
  fun _ _ h => hp h

theorem failure (e : ε) : (Plan.answer (.failure e anchor) : Plan ι σ ε α).Anchored anchor := by
  intro f o h
  cases h
  rfl

theorem require (p : Part ι σ ε β) {next : β → ι → Plan ι σ ε α}
    (hnext : ∀ b r, (next b r).Anchored anchor) :
    (Plan.require anchor p s next).Anchored anchor := by
  intro e o h
  rw [Plan.outcome_require] at h
  split at h
  · exact hnext _ _ h
  · cases h
    rfl

theorem attempt [Diagnostic ε ι] (p : Part ι σ ε β) {next : β → ι → Plan ι σ ε α}
    {otherwise : Plan ι σ ε α} (hnext : ∀ b r, (next b r).Anchored anchor)
    (hother : otherwise.Anchored anchor) :
    (Plan.attempt anchor p s next otherwise).Anchored anchor := by
  intro e o h
  rw [Plan.outcome_attempt] at h
  split at h
  · exact hnext _ _ h
  · split at h
    · cases h
      rfl
    · exact hother h

theorem inTurn (vs : List α) (ps : List (Part ι σ ε α)) (s : ι) :
    (Plan.inTurn anchor vs ps s).Anchored anchor := by
  intro e o h
  rw [Plan.outcome_inTurn, Outcome.ofExcept_eq_failure_iff] at h
  exact h.2.symm

variable [Cursor ι σ] [Diagnostic ε ι]

theorem rounds (p : Part ι σ ε α) (guard : String) (vs : List α) (s : ι) :
    (Plan.rounds anchor p guard vs s).Anchored anchor := by
  intro e o h
  rw [Plan.outcome_rounds, Outcome.ofExcept_eq_failure_iff] at h
  exact h.2.symm

theorem separatedRounds (sep : Part ι σ ε β) (p : Part ι σ ε α) (guard : String) (limit : Nat)
    (vs : List α) (s : ι) :
    (Plan.separatedRounds anchor sep p guard limit vs s).Anchored anchor := by
  intro e o h
  rw [Plan.outcome_separatedRounds] at h
  split at h
  · rw [Outcome.ofExcept_eq_failure_iff] at h
    exact h.2.symm
  · cases h
    rfl

theorem search (p : Part ι σ ε α) (s : ι) : (Plan.search anchor p s).Anchored anchor := by
  intro e o h
  rw [Plan.outcome_search] at h
  split at h <;> cases h <;> rfl

end Plan.Anchored

/-! ## Trees -/

namespace Grammar

variable [Cursor ι σ] [Symbol σ]

/-- The trees that hand on a failure with the input that it came with. -/
def HandsOn {ε α : Type} : Grammar ι σ ε α → Prop
  | leaf _ | map _ _ | mapError _ _ | label _ _ | complete _ | orElse _ _ | firstOf _ _ => True
  | _ => False

/-- A tree that does not hand failures on anchors its own at its input. -/
theorem anchored_plan [Diagnostic ε ι] (g : Grammar ι σ ε α) (hg : ¬ g.HandsOn) (s : ι) :
    (g.plan s).Anchored s := by
  cases g with
  | leaf | map | mapError | label | complete | orElse | firstOf => exact absurd trivial hg
  | primitive p => exact .answer p.parse_anchored s
  | integerAs read => exact .answer (.integerAs read) s
  | succeed a => exact .success a s
  | fail d => exact .failure _
  | endOfInput => exact .answer .endOfInput s
  | tryMap f p =>
      refine .require _ fun a r => ?_
      split
      · exact .success _ r
      · exact .failure _
  | verify check p =>
      refine .require _ fun a r => ?_
      split
      · exact .success a r
      · exact .failure _
  | notFollowedBy p => exact .attempt _ (fun _ _ => .failure _) (.success () s)
  | optional p => exact .attempt _ (fun a r => .success (some a) r) (.success none s)
  | withDefault a p => exact .attempt _ .success (.success a s)
  | lookahead p => exact .require _ fun a _ => .success a s
  | spanOf p => exact .require _ fun _ r => .success _ r
  | yielding b p => exact .require _ fun _ r => .success b r
  | takeUntil p => exact .search _ s
  | pair p q => exact .require _ fun _ _ => .require _ fun _ t => .success _ t
  | separatedPair p sep q =>
      exact .require _ fun _ _ => .require _ fun _ _ => .require _ fun _ u => .success _ u
  | seqRight p q => exact .require _ fun _ _ => .require _ .success
  | seqLeft p q => exact .require _ fun a _ => .require _ fun _ t => .success a t
  | between p q close =>
      exact .require _ fun _ _ => .require _ fun b _ => .require _ fun _ u => .success b u
  | sequence n ps => exact .inTurn [] _ s
  | times p n =>
      unfold plan
      split
      · exact .failure _
      · exact .inTurn [] _ s
  | many p => exact .rounds _ _ [] s
  | many1 p =>
      refine .require _ fun a r => ?_
      split
      · exact .rounds _ _ [a] r
      · exact .failure _
  | sepBy sep p =>
      refine .attempt _ (fun a r => ?_) (.success [] s)
      split
      · exact .separatedRounds _ _ _ _ [a] r
      · exact .failure _
  | sepBy1 sep p =>
      refine .require _ fun a r => ?_
      split
      · exact .separatedRounds _ _ _ _ [a] r
      · exact .failure _

/-- **Failures of well-behaved trees.**  If every parser of a client anchors its failures at its
input, so does the tree. -/
theorem parse_anchored [inst : Diagnostic ε ι] (g : Grammar ι σ ε α)
    (hg : g.LeavesSatisfy Parser.Anchored) : g.parse.Anchored := by
  induction g generalizing inst with
  | leaf p => exact hg
  | map f p ih => exact (ih hg.2).map f
  | mapError f p ih => exact (ih hg.2).mapError f
  | label d p ih => exact (ih hg.2).label d
  | complete p ih => exact (ih hg.2).complete
  | orElse p q ihp ihq => exact (ihp hg.2.1).orElse (ihq hg.2.2)
  | firstOf n ps ih =>
      refine .firstOf fun p hp => ?_
      obtain ⟨i, rfl⟩ := List.mem_ofFn.1 hp
      exact ih i (hg.2 i)
  | _ =>
      intro s e o h
      rw [← outcome_plan] at h
      refine anchored_plan _ ?_ s h
      exact not_false

end Grammar

/-! ## Failures that are handed on -/

/-- A client's own parser that was run on `s` has failed with the origin `o`. -/
inductive Event.LeafFailure (s o : ι) : Event ι σ → Prop
  | mk {ε α : Type} (p : Parser ι ε α) (e : ε) : LeafFailure s o (.leave (.leaf p) s (.failure e o))

/-- If the plan fails, the failure is anchored at `s`, or where a client's own parser that the plan
has run on `s` has anchored it. -/
def Plan.Traced (s : ι) (plan : Plan ι σ ε α) : Prop :=
  ∀ ⦃e : ε⦄ ⦃o : ι⦄, plan.outcome = .failure e o → o = s ∨ ∃ ev ∈ plan.log, ev.LeafFailure s o

theorem Plan.Anchored.traced {s : ι} {plan : Plan ι σ ε α} (h : plan.Anchored s) :
    plan.Traced s :=
  fun _ _ hf => .inl (h hf)

variable [Cursor ι σ] [Symbol σ]

/-- A failure of the run of a tree on `s` is anchored at `s`, or where a client's own parser that was
run on `s` has anchored it. -/
def Grammar.Traced [Diagnostic ε ι] (g : Grammar ι σ ε α) (s : ι) : Prop :=
  ∀ ⦃e : ε⦄ ⦃o : ι⦄, g.parse s = .failure e o → o = s ∨ ∃ ev ∈ g.log s, ev.LeafFailure s o

theorem Grammar.traced_of_plan [Diagnostic ε ι] {g : Grammar ι σ ε α} {s : ι}
    (h : (g.plan s).Traced s) : g.Traced s := by
  intro e o hf
  rw [← Grammar.outcome_plan] at hf
  rcases h hf with rfl | ⟨ev, hev, hleaf⟩
  · exact .inl rfl
  · exact .inr ⟨ev, Grammar.mem_log_of_mem_plan hev, hleaf⟩

namespace Plan.Traced

variable [Diagnostic ε ι] {s : ι}

/-- A call on the same input, whose failure is either left behind or handed on. -/
theorem call {g : Grammar ι σ ε β} {go : Outcome ι ε β → Plan ι σ ε α} (hg : g.Traced s)
    (hgo : (go (g.parse s)).Traced s ∨
      ∃ e o f, g.parse s = .failure e o ∧ go (.failure e o) = .answer (.failure f o)) :
    (Plan.call g s (g.plan s) go).Traced s := by
  intro e o h
  rw [Plan.outcome_call, Grammar.outcome_plan] at h
  rw [Grammar.log_call]
  rcases hgo with hgo | ⟨f, t, f', hf, hans⟩
  · rcases hgo h with rfl | ⟨ev, hev, hleaf⟩
    · exact .inl rfl
    · exact .inr ⟨ev, List.mem_append_right _ hev, hleaf⟩
  · rw [hf, hans] at h
    cases h
    rcases hg hf with rfl | ⟨ev, hev, hleaf⟩
    · exact .inl rfl
    · exact .inr ⟨ev, List.mem_append_left _ hev, hleaf⟩

theorem translate {g : Grammar ι σ ε α} (hg : g.Traced s) (f : ε → ε') :
    (Plan.translate g s (g.plan s) f).Traced s := by
  intro e o h
  rw [Plan.outcome, Grammar.outcome_plan, Parser.mapError] at h
  rw [Grammar.log_translate]
  split at h
  · cases h
  · rename_i hf
    cases h
    exact hg hf

theorem alternatives {ps : List (Part ι σ ε α)}
    (hps : ∀ p ∈ ps, ∃ g : Grammar ι σ ε α, p = ⟨g, g.plan⟩ ∧ g.Traced s) (tried : Option ε) :
    (Plan.alternatives s tried ps).Traced s := by
  induction ps generalizing tried with
  | nil => exact (Plan.Anchored.failure _).traced
  | cons p ps ih =>
      obtain ⟨g, rfl, hg⟩ := hps p List.mem_cons_self
      refine call hg ?_
      cases hgs : g.parse s with
      | success a r => exact .inl (Plan.Anchored.success a r).traced
      | failure f o =>
          by_cases hf : Diagnostic.isFatal f = true
          · exact .inr ⟨f, o, f, rfl, if_pos hf⟩
          · refine .inl ?_
            simp only [if_neg hf]
            exact ih (fun q hq => hps q (List.mem_cons_of_mem _ hq)) _

end Plan.Traced

namespace Grammar

theorem traced [inst : Diagnostic ε ι] (g : Grammar ι σ ε α) (s : ι) : g.Traced s := by
  induction g generalizing inst with
  | leaf p =>
      intro e o h
      refine .inr ⟨.leave (.leaf p) s (.failure e o), ?_, ⟨p, e⟩⟩
      rw [log_eq, h]
      simp
  | map f p ih =>
      refine traced_of_plan (.call ih ?_)
      cases p.parse s with
      | success a r => exact .inl (Plan.Anchored.success (f a) r).traced
      | failure e o => exact .inr ⟨e, o, e, rfl, rfl⟩
  | mapError f p ih => exact traced_of_plan (.translate ih f)
  | label d p ih =>
      refine traced_of_plan (.call ih ?_)
      cases p.parse s with
      | success a r => exact .inl (Plan.Anchored.success a r).traced
      | failure e o =>
          by_cases he : Diagnostic.isFatal e = true
          · exact .inr ⟨e, o, _, rfl, if_pos he⟩
          · exact .inr ⟨e, o, _, rfl, if_neg he⟩
  | complete p ih =>
      refine traced_of_plan (.call ih ?_)
      cases p.parse s with
      | success a r =>
          refine .inl (Plan.Anchored.traced ?_)
          dsimp only
          split
          · exact .success a r
          · exact .failure _
      | failure e o => exact .inr ⟨e, o, e, rfl, rfl⟩
  | orElse p q ihp ihq =>
      refine traced_of_plan (.call ihp ?_)
      cases p.parse s with
      | success a r => exact .inl (Plan.Anchored.success a r).traced
      | failure e o =>
          by_cases he : Diagnostic.isFatal e = true
          · exact .inr ⟨e, o, _, rfl, if_pos he⟩
          · refine .inl ?_
            simp only [if_neg he]
            refine .call ihq ?_
            cases q.parse s with
            | success a r => exact .inl (Plan.Anchored.success a r).traced
            | failure f t =>
                by_cases hf : Diagnostic.isFatal f = true
                · exact .inr ⟨f, t, _, rfl, if_pos hf⟩
                · refine .inl (Plan.Anchored.traced ?_)
                  simp only [if_neg hf]
                  exact .failure _
  | firstOf n ps ih =>
      refine traced_of_plan (.alternatives (fun p hp => ?_) none)
      obtain ⟨i, rfl⟩ := List.mem_ofFn.1 hp
      exact ⟨ps i, rfl, ih i⟩
  | _ =>
      refine traced_of_plan (anchored_plan _ ?_ s).traced
      exact not_false

/-- **Where failures come from.**  The origin of a failure is the input of the tree, or the origin
of a failure of a client's own parser that was run on the very same input.  If all parsers of a
client anchor their failures at their input, it is always the input of the tree. -/
theorem parse_failure_origin [Diagnostic ε ι] (g : Grammar ι σ ε α) :
    (∀ s e o, g.parse s = .failure e o → o = s ∨
      ∃ (ε' β : Type) (p : Parser ι ε' β) (f : ε'),
        Event.leave (.leaf p) s (.failure f o) ∈ g.log s) ∧
    (g.LeavesSatisfy Parser.Anchored → ∀ s e o, g.parse s = .failure e o → o = s) := by
  constructor
  · intro s e o h
    rcases g.traced s h with rfl | ⟨_, hev, ⟨p, f⟩⟩
    · exact .inl rfl
    · exact .inr ⟨_, _, p, f, hev⟩
  · intro hg s e o h
    exact g.parse_anchored hg h

/-- Fails fatally, and anchors the failure behind the first symbol. -/
def overshoot : Parser Text (ParseError Text) Char := fun s =>
  .failure (Diagnostic.fatal s (.custom "overshoot")) (Cursor.tail s)

/-- A choice that ends with the failure of its second part. -/
def overshot : Grammar Text Char (ParseError Text) Char :=
  .label "letter" (.orElse (.seqRight (.primitive (.char 'b')) (.leaf overshoot)) (.leaf overshoot))

/-- `a` and `b`, or else `c`. -/
def adjacent : Grammar Text Char (ParseError Text) Char :=
  .orElse (.seqRight (.primitive (.char 'a')) (.leaf (Parser.char 'b'))) (.primitive (.char 'c'))

theorem parse_failure_origin_overshot :
    (∃ (ε' β : Type) (p : Parser Text ε' β) (f : ε'),
      Event.leave (.leaf p) (Text.ofString "aé") (.failure f (Text.ofString "é")) ∈
        overshot.log (Text.ofString "aé")) ∧
    overshot.parse (Text.ofString "aé") =
      .failure (Diagnostic.fatal (Text.ofString "aé") (.custom "overshoot")) (Text.ofString "é") ∧
    adjacent.LeavesSatisfy Parser.Anchored ∧
    ∃ e, adjacent.parse (Text.ofString "aé") = .failure e (Text.ofString "aé") := by
  have hrun : overshot.parse (Text.ofString "aé") =
      .failure (Diagnostic.fatal (Text.ofString "aé") (.custom "overshoot")) (Text.ofString "é") :=
    rfl
  have hmoved : Text.ofString "é" ≠ Text.ofString "aé" := fun h =>
    absurd (congrArg Text.size h) (by decide)
  have hleaves : adjacent.LeavesSatisfy Parser.Anchored :=
    ⟨trivial, ⟨trivial, trivial, Parser.Anchored.symbolWhere _ _⟩, trivial⟩
  refine ⟨(overshot.parse_failure_origin.1 _ _ _ hrun).resolve_left hmoved, hrun, hleaves, ?_⟩
  cases h : adjacent.parse (Text.ofString "aé") with
  | success c r => cases h
  | failure e o =>
      rw [adjacent.parse_failure_origin.2 hleaves _ _ _ h]
      exact ⟨e, rfl⟩

end Grammar

end ParserAlgebra
