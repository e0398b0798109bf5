import ParserAlgebra.Proofs.Shape

/-!
# Plans

`Grammar.parse` says what comes out of a tree.  A *plan* says how: it is what the tree does at one
input, call by call.  All that a plan knows of the parts of its tree are the answers to its calls, so
no call can be missing from it.

* `Grammar.plan` — the plan of a tree at an input.
* `Grammar.outcome_plan` — the outcome of the plan is what the tree parses.
* `Grammar.log` — all the calls of a run, at any depth, as a list of events in the order of time.
-/

set_option autoImplicit false

namespace ParserAlgebra

/-- A tree is entered at an input, or left with an outcome. -/
inductive Event (ι σ : Type) : Type 1 where
  | enter {ε α : Type} (g : Grammar ι σ ε α) (s : ι)
  | leave {ε α : Type} (g : Grammar ι σ ε α) (s : ι) (o : Outcome ι ε α)

/-- What is done at one input to get an outcome, by the types of errors and values. -/
inductive Plan (ι σ : Type) : Type → Type → Type 1 where
  | answer {ε α : Type} (o : Outcome ι ε α) : Plan ι σ ε α
  /-- Enters the tree `g` at `s`, whose own plan is `body`, and goes on with its outcome. -/
  | call {ε α β : Type} (g : Grammar ι σ ε β) (s : ι) (body : Plan ι σ ε β)
      (go : Outcome ι ε β → Plan ι σ ε α) : Plan ι σ ε α
  /-- Enters a tree with errors of another type, and answers what it does with its error changed. -/
  | translate {ε ε' α : Type} (g : Grammar ι σ ε α) (s : ι) (body : Plan ι σ ε α) (f : ε → ε') :
      Plan ι σ ε' α

/-- A tree with its plans. -/
structure Part (ι σ ε α : Type) : Type 1 where
  tree : Grammar ι σ ε α
  plan : ι → Plan ι σ ε α

namespace Plan

variable {ι σ ε ε' α β : Type}

def outcome : {ε α : Type} → Plan ι σ ε α → Outcome ι ε α
  | _, _, answer o => o
  | _, _, call _ _ body go => (go body.outcome).outcome
  | _, _, translate _ s body f => Parser.mapError f (fun _ => body.outcome) s

/-- What happens at any depth, in the order of time. -/
def log : {ε α : Type} → Plan ι σ ε α → List (Event ι σ)
  | _, _, answer _ => []
  | _, _, call g s body go =>
    .enter g s :: (body.log ++ .leave g s body.outcome :: (go body.outcome).log)
  | _, _, translate g s body _ => .enter g s :: (body.log ++ [.leave g s body.outcome])

/-- Calls a part, and goes on behind it.  If the part fails, its error is the answer. -/
def require (anchor : ι) (p : Part ι σ ε β) (s : ι) (next : β → ι → Plan ι σ ε α) :
    Plan ι σ ε α :=
  .call p.tree s (p.plan s) fun
    | .success b r => next b r
    | .failure e _ => .answer (.failure e anchor)

/-- Calls a part that may fail.  Only if it fails fatally, its error is the answer. -/
def attempt [Diagnostic ε ι] (anchor : ι) (p : Part ι σ ε β) (s : ι)
    (next : β → ι → Plan ι σ ε α) (otherwise : Plan ι σ ε α) : Plan ι σ ε α :=
  .call p.tree s (p.plan s) fun
    | .success b r => next b r
    | .failure e _ => if Diagnostic.isFatal e then .answer (.failure e anchor) else otherwise

/-! ## Loops -/

section Loops

variable [Cursor ι σ] [Diagnostic ε ι]

/-- Tries parts in order, after others have been tried with an error. -/
def alternatives (s : ι) (tried : Option ε) : List (Part ι σ ε α) → Plan ι σ ε α
  | [] => .answer (.failure (tried.getD (Diagnostic.expected s "alternative")) s)
  | p :: ps =>
    .call p.tree s (p.plan s) fun
      | .success a r => .answer (.success a r)
      | .failure f o =>
        if Diagnostic.isFatal f then .answer (.failure f o)
        else alternatives s (some (tried.elim f (Diagnostic.merge · f))) ps

/-- Calls parts one after another, with the values `vs` from those before. -/
def inTurn (anchor : ι) : List α → List (Part ι σ ε α) → ι → Plan ι σ ε (List α)
  | vs, [], s => .answer (.success vs s)
  | vs, p :: ps, s => require anchor p s fun a r => inTurn anchor (vs ++ [a]) ps r

/-- Calls a part as often as it matches, with the values `vs` of the rounds before. -/
def rounds (anchor : ι) (p : Part ι σ ε α) (guard : String) (vs : List α) (s : ι) :
    Plan ι σ ε (List α) :=
  attempt anchor p s
    (fun a r =>
      if _h : Cursor.length r < Cursor.length s then rounds anchor p guard (vs ++ [a]) r
      else .answer (.failure (Diagnostic.expected s guard) anchor))
    (.answer (.success vs s))
termination_by Cursor.length s

/-- Calls a separator and a part as often as both match. -/
def separatedRounds (anchor : ι) (sep : Part ι σ ε β) (p : Part ι σ ε α) (guard : String)
    (limit : Nat) (vs : List α) (s : ι) : Plan ι σ ε (List α) :=
  attempt anchor sep s
    (fun _ u =>
      attempt anchor p u
        (fun a r =>
          if Cursor.length r < Cursor.length u then
            if _h : Cursor.length r < Cursor.length s then
              separatedRounds anchor sep p guard limit (vs ++ [a]) r
            else
              match limit with
              | 0 => .answer (.failure (Diagnostic.expected anchor guard) anchor)
              | limit + 1 => separatedRounds anchor sep p guard limit (vs ++ [a]) r
          else .answer (.failure (Diagnostic.expected u guard) anchor))
        (.answer (.success vs s)))
    (.answer (.success vs s))
termination_by (limit, Cursor.length s)

/-- Calls a part at one place after another until it matches. -/
def search (anchor : ι) (p : Part ι σ ε α) (s : ι) : Plan ι σ ε (Span ι) :=
  if _h : Cursor.isEmpty s then
    .answer (.failure (Diagnostic.expected anchor "TakeUntil") anchor)
  else
    attempt anchor p s (fun _ _ => .answer (.success ⟨anchor, s⟩ s))
      (search anchor p (Cursor.tail s))
termination_by Cursor.length s
decreasing_by exact Cursor.length_tail_lt (by simpa using _h)

end Loops

end Plan

namespace Grammar

variable {ι σ ε α : Type} [Cursor ι σ] [Symbol σ]

open Plan (require attempt)

/-- What a tree does at an input. -/
def plan : {ε α : Type} → [Diagnostic ε ι] → Grammar ι σ ε α → ι → Plan ι σ ε α
  | _, _, _, leaf p, s => .answer (p s)
  | _, _, _, primitive p, s => .answer (p.parse s)
  | _, _, _, integerAs read, s => .answer (Parser.integerAs read s)
  | _, _, _, succeed a, s => .answer (.success a s)
  | _, _, _, fail d, s => .answer (.failure (Diagnostic.expected s d) s)
  | _, _, _, endOfInput, s => .answer (Parser.endOfInput s)
  | _, _, _, map f p, s => .call p s (p.plan s) fun o => .answer (o.map f)
  | _, _, _, tryMap f p, s =>
    require s ⟨p, p.plan⟩ s fun a r =>
      match f a with
      | .ok b => .answer (.success b r)
      | .error reason => .answer (.failure (Seed.raise s reason) s)
  | _, _, _, mapError f p, s => .translate p s (p.plan s) f
  | _, _, _, label d p, s =>
    .call p s (p.plan s) fun
      | .success a r => .answer (.success a r)
      | .failure e o =>
        if Diagnostic.isFatal e then .answer (.failure e o)
        else .answer (.failure (Diagnostic.relabel d e) o)
  | _, _, _, verify check p, s =>
    require s ⟨p, p.plan⟩ s fun a r =>
      if check a then .answer (.success a r)
      else .answer (.failure (Diagnostic.expected s "verify") s)
  | _, _, _, complete p, s =>
    .call p s (p.plan s) fun
      | .success a r =>
        if Cursor.isEmpty r then .answer (.success a r)
        else .answer (.failure (Diagnostic.expectedEnd r) s)
      | .failure e o => .answer (.failure e o)
  | _, _, _, notFollowedBy p, s =>
    attempt s ⟨p, p.plan⟩ s
      (fun _ _ => .answer (.failure (Diagnostic.expected s "not") s)) (.answer (.success () s))
  | _, _, _, optional p, s =>
    attempt s ⟨p, p.plan⟩ s (fun a r => .answer (.success (some a) r)) (.answer (.success none s))
  | _, _, _, withDefault fallback p, s =>
    attempt s ⟨p, p.plan⟩ s (fun a r => .answer (.success a r)) (.answer (.success fallback s))
  | _, _, _, lookahead p, s => require s ⟨p, p.plan⟩ s fun a _ => .answer (.success a s)
  | _, _, _, spanOf p, s => require s ⟨p, p.plan⟩ s fun _ r => .answer (.success ⟨s, r⟩ r)
  | _, _, _, yielding b p, s => require s ⟨p, p.plan⟩ s fun _ r => .answer (.success b r)
  | _, _, _, takeUntil p, s => Plan.search s ⟨p, p.plan⟩ s
  | _, _, _, orElse p q, s =>
    .call p s (p.plan s) fun
      | .success a r => .answer (.success a r)
      | .failure e o =>
        if Diagnostic.isFatal e then .answer (.failure e o)
        else
          .call q s (q.plan s) fun
            | .success a r => .answer (.success a r)
            | .failure f o =>
              if Diagnostic.isFatal f then .answer (.failure f o)
              else .answer (.failure (Diagnostic.merge e f) s)
  | _, _, _, firstOf _ ps, s =>
    Plan.alternatives s none (List.ofFn fun i => ⟨ps i, (ps i).plan⟩)
  | _, _, _, pair p q, s =>
    require s ⟨p, p.plan⟩ s fun a r =>
      require s ⟨q, q.plan⟩ r fun b t => .answer (.success ⟨a, b⟩ t)
  | _, _, _, separatedPair p sep q, s =>
    require s ⟨p, p.plan⟩ s fun a r =>
      require s ⟨sep, sep.plan⟩ r fun _ t =>
        require s ⟨q, q.plan⟩ t fun b u => .answer (.success ⟨a, b⟩ u)
  | _, _, _, seqRight p q, s =>
    require s ⟨p, p.plan⟩ s fun _ r =>
      require s ⟨q, q.plan⟩ r fun b t => .answer (.success b t)
  | _, _, _, seqLeft p q, s =>
    require s ⟨p, p.plan⟩ s fun a r =>
      require s ⟨q, q.plan⟩ r fun _ t => .answer (.success a t)
  | _, _, _, between p q close, s =>
    require s ⟨p, p.plan⟩ s fun _ r =>
      require s ⟨q, q.plan⟩ r fun b t =>
        require s ⟨close, close.plan⟩ t fun _ u => .answer (.success b u)
  | _, _, _, sequence _ ps, s => Plan.inTurn s [] (List.ofFn fun i => ⟨ps i, (ps i).plan⟩) s
  | _, _, _, times p n, s =>
    if n == 0 || Cursor.isEmpty s then .answer (.failure (Diagnostic.expected s "Count") s)
    else Plan.inTurn s [] (List.replicate n ⟨p, p.plan⟩) s
  | _, _, _, many p, s => Plan.rounds s ⟨p, p.plan⟩ "Many0" [] s
  | _, _, _, many1 p, s =>
    require s ⟨p, p.plan⟩ s fun a r =>
      if Cursor.length r < Cursor.length s then Plan.rounds s ⟨p, p.plan⟩ "Many1" [a] r
      else .answer (.failure (Diagnostic.expected s "Many1") s)
  | _, _, _, sepBy sep p, s =>
    attempt s ⟨p, p.plan⟩ s
      (fun a r =>
        if Cursor.length r < Cursor.length s then
          Plan.separatedRounds s ⟨sep, sep.plan⟩ ⟨p, p.plan⟩ "SeparatedList0"
            Parser.regrowthLimit [a] r
        else .answer (.failure (Diagnostic.expected s "SeparatedList0") s))
      (.answer (.success [] s))
  | _, _, _, sepBy1 sep p, s =>
    require s ⟨p, p.plan⟩ s fun a r =>
      if Cursor.length r < Cursor.length s then
        Plan.separatedRounds s ⟨sep, sep.plan⟩ ⟨p, p.plan⟩ "SeparatedList1"
          Parser.regrowthLimit [a] r
      else .answer (.failure (Diagnostic.expected s "SeparatedList1") s)

/-- All that happens when a tree is run on an input, from entering the tree to leaving it. -/
def log [Diagnostic ε ι] (g : Grammar ι σ ε α) (s : ι) : List (Event ι σ) :=
  (Plan.call g s (g.plan s) Plan.answer).log

end Grammar

/-! ## Outcomes of plans -/

/-- The parser that the plans of a part carry out. -/
def Part.parser {ι σ ε α : Type} (p : Part ι σ ε α) : Parser ι ε α := fun s => (p.plan s).outcome

namespace Plan

open ParserAlgebra.Parser (prepend collect replicate gather gatherSep findMatch tryEach)

variable {ι σ ε α β : Type}

@[simp] theorem outcome_answer (o : Outcome ι ε α) : (answer o : Plan ι σ ε α).outcome = o := rfl

@[simp] theorem outcome_call (g : Grammar ι σ ε β) (s : ι) (body : Plan ι σ ε β)
    (go : Outcome ι ε β → Plan ι σ ε α) :
    (call g s body go).outcome = (go body.outcome).outcome := rfl

theorem outcome_require (anchor : ι) (p : Part ι σ ε β) (s : ι) (next : β → ι → Plan ι σ ε α) :
    (require anchor p s next).outcome =
      match p.parser s with
      | .success b r => (next b r).outcome
      | .failure e _ => .failure e anchor := by
  unfold require Part.parser
  rw [outcome_call]
  cases (p.plan s).outcome <;> rfl

theorem outcome_attempt [Diagnostic ε ι] (anchor : ι) (p : Part ι σ ε β) (s : ι)
    (next : β → ι → Plan ι σ ε α) (otherwise : Plan ι σ ε α) :
    (attempt anchor p s next otherwise).outcome =
      match p.parser s with
      | .success b r => (next b r).outcome
      | .failure e _ => if Diagnostic.isFatal e then .failure e anchor else otherwise.outcome := by
  unfold attempt Part.parser
  rw [outcome_call]
  cases (p.plan s).outcome with
  | success b r => rfl
  | failure e o =>
      dsimp only
      split <;> rfl

section Attempt

variable [Diagnostic ε ι] {anchor s : ι} {p : Part ι σ ε β} {next : β → ι → Plan ι σ ε α}
  {otherwise : Plan ι σ ε α}

theorem outcome_attempt_of_success {b : β} {r : ι} (h : p.parser s = .success b r) :
    (attempt anchor p s next otherwise).outcome = (next b r).outcome := by
  rw [outcome_attempt, h]

theorem outcome_attempt_of_fatal {e : ε} {o : ι} (h : p.parser s = .failure e o)
    (he : Diagnostic.isFatal e = true) :
    (attempt anchor p s next otherwise).outcome = .failure e anchor := by
  rw [outcome_attempt, h]
  exact if_pos he

theorem outcome_attempt_of_recoverable {e : ε} {o : ι} (h : p.parser s = .failure e o)
    (he : ¬ Diagnostic.isFatal e = true) :
    (attempt anchor p s next otherwise).outcome = otherwise.outcome := by
  rw [outcome_attempt, h]
  exact if_neg he

end Attempt

/-! ## Outcomes of loops -/

theorem outcome_alternatives [Diagnostic ε ι] (s : ι) (tried : Option ε)
    (ps : List (Part ι σ ε α)) :
    (alternatives s tried ps).outcome = tryEach s tried (ps.map Part.parser) := by
  induction ps generalizing tried with
  | nil => cases tried <;> rfl
  | cons p ps ih =>
      rw [alternatives, outcome_call, List.map_cons, tryEach]
      unfold Part.parser
      cases (p.plan s).outcome with
      | success a r => rfl
      | failure f o =>
          dsimp only
          split
          · rfl
          · rw [ih]
            cases tried <;> rfl

theorem outcome_inTurn (anchor : ι) (vs : List α) (ps : List (Part ι σ ε α)) (s : ι) :
    (inTurn anchor vs ps s).outcome =
      .ofExcept anchor ((collect (ps.map Part.parser) s).map fun x => (vs ++ x.1, x.2)) := by
  induction ps generalizing vs s with
  | nil => simp [inTurn, collect, Except.map, Outcome.ofExcept]
  | cons p ps ih =>
      rw [inTurn, outcome_require, List.map_cons, collect]
      cases p.parser s with
      | success a r =>
          dsimp only
          rw [ih]
          cases collect (ps.map Part.parser) r <;> simp [prepend, Except.map]
      | failure e o => rfl

variable [Cursor ι σ] [Diagnostic ε ι]

theorem outcome_rounds (anchor : ι) (p : Part ι σ ε α) (guard : String) (vs : List α) (s : ι) :
    (rounds anchor p guard vs s).outcome =
      .ofExcept anchor ((gather p.parser guard s).map fun x => (vs ++ x.1, x.2)) := by
  fun_induction gather p.parser guard s generalizing vs with
  | case1 s a r hp hlt ih =>
      rw [rounds, outcome_attempt_of_success hp, dif_pos hlt, ih]
      cases gather p.parser guard r <;> simp [prepend, Except.map]
  | case2 s a r hp hlt =>
      rw [rounds, outcome_attempt_of_success hp, dif_neg hlt]
      rfl
  | case3 s e o hp hf =>
      rw [rounds, outcome_attempt_of_fatal hp hf]
      rfl
  | case4 s e o hp hf =>
      rw [rounds, outcome_attempt_of_recoverable hp hf]
      simp [Except.map, Outcome.ofExcept]

theorem outcome_separatedRounds (anchor : ι) (sep : Part ι σ ε β) (p : Part ι σ ε α)
    (guard : String) (limit : Nat) (vs : List α) (s : ι) :
    (separatedRounds anchor sep p guard limit vs s).outcome =
      match gatherSep sep.parser p.parser guard limit s with
      | some x => .ofExcept anchor (x.map fun x => (vs ++ x.1, x.2))
      | none => .failure (Diagnostic.expected anchor guard) anchor := by
  fun_induction gatherSep sep.parser p.parser guard limit s generalizing vs with
  | case1 limit s e o hsep hf =>
      rw [separatedRounds, outcome_attempt_of_fatal hsep hf]
      rfl
  | case2 limit s e o hsep hf =>
      rw [separatedRounds, outcome_attempt_of_recoverable hsep hf]
      simp [Except.map, Outcome.ofExcept]
  | case3 limit s b u hsep e o hp hf =>
      rw [separatedRounds, outcome_attempt_of_success hsep, outcome_attempt_of_fatal hp hf]
      rfl
  | case4 limit s b u hsep e o hp hf =>
      rw [separatedRounds, outcome_attempt_of_success hsep, outcome_attempt_of_recoverable hp hf]
      simp [Except.map, Outcome.ofExcept]
  | case5 limit s b u hsep a r hp hu hs ih =>
      rw [separatedRounds, outcome_attempt_of_success hsep, outcome_attempt_of_success hp,
        if_pos hu, dif_pos hs, ih]
      cases gatherSep sep.parser p.parser guard limit r with
      | none => rfl
      | some x => cases x <;> simp [prepend, Except.map]
  | case6 s b u hsep a r hp hu hs =>
      rw [separatedRounds, outcome_attempt_of_success hsep, outcome_attempt_of_success hp,
        if_pos hu, dif_neg hs]
      rfl
  | case7 s b u hsep a r hp hu hs limit ih =>
      rw [separatedRounds, outcome_attempt_of_success hsep, outcome_attempt_of_success hp,
        if_pos hu, dif_neg hs, ih]
      cases gatherSep sep.parser p.parser guard limit r with
      | none => rfl
      | some x => cases x <;> simp [prepend, Except.map]
  | case8 limit s b u hsep a r hp hu =>
      rw [separatedRounds, outcome_attempt_of_success hsep, outcome_attempt_of_success hp,
        if_neg hu]
      rfl

theorem outcome_search (anchor : ι) (p : Part ι σ ε α) (s : ι) :
    (search anchor p s).outcome =
      match findMatch p.parser s with
      | .ok (some r) => .success ⟨anchor, r⟩ r
      | .ok none => .failure (Diagnostic.expected anchor "TakeUntil") anchor
      | .error e => .failure e anchor := by
  fun_induction findMatch p.parser s with
  | case1 s h => rw [search, dif_pos h, outcome_answer]
  | case2 s h a r hp => rw [search, dif_neg h, outcome_attempt_of_success hp, outcome_answer]
  | case3 s h e o hp hf => rw [search, dif_neg h, outcome_attempt_of_fatal hp hf]
  | case4 s h e o hp hf ih =>
      rw [search, dif_neg h, outcome_attempt_of_recoverable hp hf, ih]

end Plan

namespace Grammar

variable {ι σ ε α : Type} [Cursor ι σ] [Symbol σ]

theorem parser_part [Diagnostic ε ι] {p : Grammar ι σ ε α}
    (h : ∀ s, (p.plan s).outcome = p.parse s) : Part.parser ⟨p, p.plan⟩ = p.parse :=
  funext h

theorem map_parser_parts [Diagnostic ε ι] {n : Nat} {ps : Fin n → Grammar ι σ ε α}
    (h : ∀ i s, ((ps i).plan s).outcome = (ps i).parse s) :
    (List.ofFn fun i => (⟨ps i, (ps i).plan⟩ : Part ι σ ε α)).map Part.parser =
      List.ofFn fun i => (ps i).parse := by
  rw [List.map_ofFn]
  congr 1
  funext i
  exact parser_part (h i)

/-- The outcome of the plan is what the tree parses. -/
theorem outcome_plan [inst : Diagnostic ε ι] (g : Grammar ι σ ε α) (s : ι) :
    (g.plan s).outcome = g.parse s := by
  induction g generalizing inst s with
  | leaf p => rfl
  | primitive p => rfl
  | integerAs read => rfl
  | succeed a => rfl
  | fail d => rfl
  | endOfInput => rfl
  | map f p ih =>
      rw [plan, Plan.outcome_call, ih]
      rfl
  | tryMap f p ih =>
      rw [plan, Plan.outcome_require, parser_part ih, parse, Parser.tryMap]
      cases p.parse s with
      | success a r => cases h : f a <;> simp [h]
      | failure e o => rfl
  | mapError f p ih =>
      rw [plan, Plan.outcome, parse]
      simp only [Parser.mapError, ih]
  | label d p ih =>
      rw [plan, Plan.outcome_call, ih, parse, Parser.label]
      cases p.parse s with
      | success a r => rfl
      | failure e o => cases h : Diagnostic.isFatal e <;> simp [h]
  | verify check p ih =>
      rw [plan, Plan.outcome_require, parser_part ih, parse, Parser.verify]
      cases p.parse s with
      | success a r => cases h : check a <;> simp [h]
      | failure e o => rfl
  | complete p ih =>
      rw [plan, Plan.outcome_call, ih, parse, Parser.complete]
      cases p.parse s with
      | success a r => cases h : Cursor.isEmpty r <;> simp [h]
      | failure e o => rfl
  | notFollowedBy p ih =>
      rw [plan, Plan.outcome_attempt, parser_part ih]
      rfl
  | optional p ih =>
      rw [plan, Plan.outcome_attempt, parser_part ih]
      rfl
  | withDefault a p ih =>
      rw [plan, Plan.outcome_attempt, parser_part ih]
      rfl
  | lookahead p ih =>
      rw [plan, Plan.outcome_require, parser_part ih]
      rfl
  | spanOf p ih =>
      rw [plan, Plan.outcome_require, parser_part ih]
      rfl
  | yielding b p ih =>
      rw [plan, Plan.outcome_require, parser_part ih]
      rfl
  | takeUntil p ih =>
      rw [plan, Plan.outcome_search, parser_part ih]
      rfl
  | orElse p q ihp ihq =>
      rw [plan, Plan.outcome_call, ihp, parse, Parser.orElse]
      cases p.parse s with
      | success a r => rfl
      | failure e o =>
          cases he : Diagnostic.isFatal e with
          | true => simp [he]
          | false =>
              simp only [he, Bool.false_eq_true, if_false, Plan.outcome_call, ihq]
              cases q.parse s with
              | success a r => rfl
              | failure f o => cases hf : Diagnostic.isFatal f <;> simp [hf]
  | firstOf n ps ih =>
      rw [plan, Plan.outcome_alternatives, map_parser_parts fun i s => ih i s]
      rfl
  | pair p q ihp ihq =>
      simp only [plan, Plan.outcome_require, parser_part ihp, parser_part ihq]
      rfl
  | separatedPair p sep q ihp ihsep ihq =>
      simp only [plan, Plan.outcome_require, parser_part ihp, parser_part ihsep, parser_part ihq]
      rfl
  | seqRight p q ihp ihq =>
      simp only [plan, Plan.outcome_require, parser_part ihp, parser_part ihq]
      rfl
  | seqLeft p q ihp ihq =>
      simp only [plan, Plan.outcome_require, parser_part ihp, parser_part ihq]
      rfl
  | between p q close ihp ihq ihclose =>
      simp only [plan, Plan.outcome_require, parser_part ihp, parser_part ihq,
        parser_part ihclose]
      rfl
  | sequence n ps ih =>
      rw [plan, Plan.outcome_inTurn, map_parser_parts fun i s => ih i s, parse, Parser.sequence]
      cases Parser.collect (List.ofFn fun i => (ps i).parse) s <;> rfl
  | times p n ih =>
      rw [plan, parse, Parser.times]
      split
      · rfl
      · rw [Plan.outcome_inTurn, List.map_replicate, parser_part ih,
          Parser.replicate_eq_collect]
        cases Parser.collect (List.replicate n p.parse) s <;> rfl
  | many p ih =>
      rw [plan, Plan.outcome_rounds, parser_part ih, parse, Parser.many]
      cases Parser.gather p.parse "Many0" s <;> rfl
  | many1 p ih =>
      rw [plan, Plan.outcome_require, parser_part ih, parse, Parser.many1]
      cases p.parse s with
      | failure e o => rfl
      | success a r =>
          dsimp only
          split
          · rw [Plan.outcome_rounds, parser_part ih]
            cases Parser.gather p.parse "Many1" r <;> rfl
          · rfl
  | sepBy sep p ihsep ihp =>
      rw [plan, Plan.outcome_attempt, parser_part ihp, parse, Parser.sepBy, Parser.sepByGuarded]
      cases p.parse s with
      | failure e o => cases h : Diagnostic.isFatal e <;> simp [h]
      | success a r =>
          dsimp only
          split
          · rw [Plan.outcome_separatedRounds, parser_part ihsep, parser_part ihp]
            rcases Parser.gatherSep sep.parse p.parse "SeparatedList0" Parser.regrowthLimit r
              with _ | _ | _ <;> rfl
          · rfl
  | sepBy1 sep p ihsep ihp =>
      rw [plan, Plan.outcome_require, parser_part ihp, parse, Parser.sepBy1, Parser.sepByGuarded]
      cases p.parse s with
      | failure e o => simp
      | success a r =>
          dsimp only
          split
          · rw [Plan.outcome_separatedRounds, parser_part ihsep, parser_part ihp]
            rcases Parser.gatherSep sep.parse p.parse "SeparatedList1" Parser.regrowthLimit r
              with _ | _ | _ <;> rfl
          · rfl

/-- A run enters its tree, does what the plan says, and leaves with what the tree parses. -/
theorem log_eq [Diagnostic ε ι] (g : Grammar ι σ ε α) (s : ι) :
    g.log s = .enter g s :: ((g.plan s).log ++ [.leave g s (g.parse s)]) := by
  rw [log, Plan.log, outcome_plan, Plan.log]

/-- A plan that begins with a call logs the run of its tree, and then what it does next. -/
theorem log_call [Diagnostic ε ι] {β : Type} (g : Grammar ι σ ε β) (s : ι)
    (go : Outcome ι ε β → Plan ι σ ε α) :
    (Plan.call g s (g.plan s) go).log = g.log s ++ (go (g.parse s)).log := by
  rw [log_eq, Plan.log, outcome_plan]
  simp

theorem log_translate [Diagnostic ε ι] {ε' : Type} (g : Grammar ι σ ε α) (s : ι) (f : ε → ε') :
    (Plan.translate g s (g.plan s) f).log = g.log s := by
  rw [log_eq, Plan.log, outcome_plan]

theorem mem_log_of_mem_plan [Diagnostic ε ι] {g : Grammar ι σ ε α} {s : ι} {ev : Event ι σ}
    (h : ev ∈ (g.plan s).log) : ev ∈ g.log s := by
  rw [log_eq]
  exact List.mem_cons_of_mem _ (List.mem_append_left _ h)

end Grammar

end ParserAlgebra
