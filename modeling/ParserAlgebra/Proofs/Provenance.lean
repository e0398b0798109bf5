import ParserAlgebra.Proofs.Raising
import ParserAlgebra.Proofs.Scheme

/-!
# Where the descriptors of an error come from

By the time an error comes out of a run it has been merged, relabelled and handed on many times.
What it expects is nevertheless what trees have raised in this run at the very place that it points
at, and nothing else.  The reason is that all errors of a run point at suffixes of the input: two of
them that have equally much left are at the same place, so that merging never mixes two places.

* `Builtin` — the library's own parsers, the leaves of the trees that are looked at here.
* `ParseError.Accounted` — errors that expect what others at their place do; merging keeps them so.
* `Plan.Accounts` — plans whose failures are accounted for, call by call.
* `Scheme.parse_failure_accounted` — the error of every failure.
-/

set_option autoImplicit false

namespace ParserAlgebra

open Cursor (Suffix)

variable {ι σ ε α β : Type} [Cursor ι σ]

/-- The library's own parsers, by the type of their values. -/
inductive Builtin (ι σ : Type) : Type → Type 1
  | primitive {α : Type} (p : Primitive ι σ α) : Builtin ι σ α
  /-- An integer literal, read as a client's own kind of value. -/
  | integerAs {α : Type} (read : List Char → Except Cause α) : Builtin ι σ α

/-- The tree of a library parser. -/
def Builtin.tree (α : Type) : Builtin ι σ α → Grammar ι σ (ParseError ι) α
  | primitive p => .primitive p
  | integerAs read => .integerAs read

/-- A tree of library parsers has no leaf of a client. -/
theorem Scheme.leavesSatisfy_builtin (P : ∀ {ε α : Type}, Parser ι ε α → Prop)
    (T : Scheme ι (Builtin ι σ) Rejection α) : (T.fill Builtin.tree).LeavesSatisfy P :=
  T.leavesSatisfy_fill fun β i => by cases i <;> exact trivial

/-! ## Accounting for an error -/

/-- In a run with this log a tree has raised the error and failed with it. -/
def RaisedIn [Symbol σ] [Diagnostic ε ι] (log : List (Event ι σ)) (e : ε) : Prop :=
  ∃ (β : Type) (p : Grammar ι σ ε β) (t o : ι), Event.leave p t (.failure e o) ∈ log ∧ p.Raises t e

theorem RaisedIn.mono [Symbol σ] [Diagnostic ε ι] {log log' : List (Event ι σ)} {e : ε}
    (h : RaisedIn log e) (hlog : log ⊆ log') : RaisedIn log' e := by
  obtain ⟨β, p, t, o, hev, hraises⟩ := h
  exact ⟨β, p, t, o, hlog hev, hraises⟩

/-- A refusal points at the place where it is raised. -/
theorem Rejection.suffix_raise (x : Rejection) (s : ι) :
    Suffix (Seed.raise s x : ParseError ι).position s := by
  cases x <;> exact .refl s

namespace ParseError

/-- An error at a suffix of `whole` that expects just what some errors at its own place expect, of
which there is at least one and all are `Raised`. -/
structure Accounted (whole : ι) (Raised : ParseError ι → Prop) (e : ParseError ι) : Prop where
  suffix : Suffix e.position whole
  expected : ∃ raised : List (ParseError ι), raised ≠ [] ∧
    (∀ f ∈ raised, f.position = e.position ∧ Raised f) ∧ e.expected = raised.flatMap (·.expected)

namespace Accounted

variable {s whole : ι} {Raised Raised' : ParseError ι → Prop} {e f : ParseError ι}

theorem raised (h : Raised e) (hsuf : Suffix e.position whole) : e.Accounted whole Raised := by
  refine ⟨hsuf, [e], List.cons_ne_nil e [], fun f hf => ?_, ?_⟩
  · rw [List.mem_singleton.1 hf]
    exact ⟨rfl, h⟩
  · rw [List.flatMap_singleton]

theorem mono (h : e.Accounted whole Raised) (himp : ∀ f, Raised f → Raised' f) :
    e.Accounted whole Raised' := by
  obtain ⟨hsuf, raised, hne, hraised, hexp⟩ := h
  exact ⟨hsuf, raised, hne, fun f hf => ⟨(hraised f hf).1, himp f (hraised f hf).2⟩, hexp⟩

theorem within (h : e.Accounted s Raised) (hs : Suffix s whole) : e.Accounted whole Raised :=
  ⟨h.suffix.trans hs, h.expected⟩

/-- Errors that are merged with their descriptors are at the same place, since suffixes of one input
with equally much left are the same. -/
theorem merge (he : e.Accounted whole Raised) (hf : f.Accounted whole Raised) :
    (e.merge f).Accounted whole Raised := by
  rcases Nat.lt_trichotomy (Cursor.length f.position) (Cursor.length e.position) with h | h | h
  · rwa [merge_of_further h]
  · have hplace : f.position = e.position := hf.suffix.eq_of_length_eq he.suffix h
    obtain ⟨hsuf, raised, hne, hraised, hexp⟩ := he
    obtain ⟨_, raised', _, hraised', hexp'⟩ := hf
    rw [merge_of_level h]
    refine ⟨hsuf, raised ++ raised', List.append_ne_nil_of_left_ne_nil hne _, fun g hg => ?_, ?_⟩
    · rcases List.mem_append.1 hg with hg | hg
      · exact hraised g hg
      · exact ⟨(hraised' g hg).1.trans hplace, (hraised' g hg).2⟩
    · rw [List.flatMap_append, ← hexp, ← hexp']
      rfl
  · rwa [merge_of_behind h]

end Accounted

end ParseError

variable [Symbol σ]

/-- A tree that advances and whose errors are accounted for by what is raised in its runs. -/
structure Grammar.Accountable (g : Grammar ι σ (ParseError ι) α) : Prop where
  advances : g.parse.Advances
  accounted {s o : ι} {e : ParseError ι} (h : g.parse s = .failure e o) :
    e.Accounted s (RaisedIn (g.log s))

/-! ## Plans -/

/-- If the plan fails, its error is accounted for by errors from `before` and those that are raised
in the trees that it calls. -/
def Plan.Accounts (whole : ι) (before : ParseError ι → Prop) (plan : Plan ι σ (ParseError ι) α) :
    Prop :=
  ∀ ⦃e : ParseError ι⦄ ⦃o : ι⦄, plan.outcome = .failure e o →
    e.Accounted whole fun f => before f ∨ RaisedIn plan.log f

namespace Plan.Accounts

variable {whole anchor s : ι} {before : ParseError ι → Prop}

theorem success (a : α) (r : ι) :
    (Plan.answer (.success a r) : Plan ι σ (ParseError ι) α).Accounts whole before := by
  intro e o h
  cases h

theorem handOn {e : ParseError ι} (he : e.Accounted whole before) (o : ι) :
    (Plan.answer (.failure e o) : Plan ι σ (ParseError ι) α).Accounts whole before := by
  intro f t h
  cases h
  exact he.mono fun _ => .inl

theorem raise {e : ParseError ι} (he : before e) (hsuf : Suffix e.position whole) (o : ι) :
    (Plan.answer (.failure e o) : Plan ι σ (ParseError ι) α).Accounts whole before :=
  handOn (.raised he hsuf) o

section Calls

variable {g : Grammar ι σ (ParseError ι) β} (hg : g.Accountable) (hs : Suffix s whole)

include hg hs

/-- Behind a call, what was raised in its run counts as raised before. -/
theorem call {go : Outcome ι (ParseError ι) β → Plan ι σ (ParseError ι) α}
    (hsuccess : ∀ b r, g.parse s = .success b r → Suffix r whole →
      (go (.success b r)).Accounts whole before)
    (hfailure : ∀ e o, g.parse s = .failure e o → e.Accounted whole (RaisedIn (g.log s)) →
      (go (.failure e o)).Accounts whole fun f => before f ∨ RaisedIn (g.log s) f) :
    (Plan.call g s (g.plan s) go).Accounts whole before := by
  intro e o h
  rw [Plan.outcome_call, Grammar.outcome_plan] at h
  rw [Grammar.log_call]
  cases hp : g.parse s with
  | success b r =>
      rw [hp] at h
      refine (hsuccess b r hp ((hg.advances hp).trans hs) h).mono fun f hf => ?_
      exact hf.imp_right (·.mono (List.subset_append_right _ _))
  | failure e' o' =>
      rw [hp] at h
      refine (hfailure e' o' hp ((hg.accounted hp).within hs) h).mono fun f hf => ?_
      rcases hf with (hf | hf) | hf
      · exact .inl hf
      · exact .inr (hf.mono (List.subset_append_left _ _))
      · exact .inr (hf.mono (List.subset_append_right _ _))

theorem require {next : β → ι → Plan ι σ (ParseError ι) α}
    (hnext : ∀ b r, g.parse s = .success b r → Suffix r whole → (next b r).Accounts whole before) :
    (Plan.require anchor ⟨g, g.plan⟩ s next).Accounts whole before := by
  refine call hg hs hnext fun e o _ he => ?_
  exact handOn (he.mono fun _ => .inr) anchor

theorem attempt {next : β → ι → Plan ι σ (ParseError ι) α} {otherwise : Plan ι σ (ParseError ι) α}
    (hnext : ∀ b r, g.parse s = .success b r → Suffix r whole → (next b r).Accounts whole before)
    (hother : ∀ e o, g.parse s = .failure e o → Diagnostic.isFatal e = false →
      otherwise.Accounts whole before) :
    (Plan.attempt anchor ⟨g, g.plan⟩ s next otherwise).Accounts whole before := by
  refine call hg hs hnext fun e o hp he => ?_
  dsimp only
  split
  · exact handOn (he.mono fun _ => .inr) anchor
  · rename_i hf
    intro f t h
    refine (hother e o hp (Bool.eq_false_iff.2 hf) h).mono fun f hf => ?_
    exact hf.imp_left .inl

end Calls

theorem alternatives {ps : List (Part ι σ (ParseError ι) α)}
    (hps : ∀ p ∈ ps, ∃ g : Grammar ι σ (ParseError ι) α, p = ⟨g, g.plan⟩ ∧ g.Accountable)
    {tried : Option (ParseError ι)} (htried : ∀ e ∈ tried, e.Accounted s before)
    (hempty : tried = none → ps = [] → before (Diagnostic.expected s "alternative")) :
    (Plan.alternatives s tried ps).Accounts s before := by
  induction ps generalizing tried before with
  | nil =>
      cases tried with
      | none => exact raise (hempty rfl rfl) (.refl s) s
      | some e => exact handOn (htried e rfl) s
  | cons p ps ih =>
      obtain ⟨g, rfl, hg⟩ := hps p List.mem_cons_self
      refine call hg (.refl s) (fun a r _ _ => success a r) fun f o _ hf => ?_
      have hf' : f.Accounted s fun f => before f ∨ RaisedIn (g.log s) f := hf.mono fun _ => .inr
      dsimp only
      split
      · exact handOn hf' o
      · refine ih (fun q hq => hps q (List.mem_cons_of_mem _ hq)) ?_ nofun
        intro e he
        cases he
        cases tried with
        | none => exact hf'
        | some e => exact ((htried e rfl).mono fun _ => .inl).merge hf'

theorem inTurn {ps : List (Part ι σ (ParseError ι) α)}
    (hps : ∀ p ∈ ps, ∃ g : Grammar ι σ (ParseError ι) α, p = ⟨g, g.plan⟩ ∧ g.Accountable)
    (vs : List α) (hs : Suffix s whole) :
    (Plan.inTurn anchor vs ps s).Accounts whole before := by
  induction ps generalizing vs s with
  | nil => exact success vs s
  | cons p ps ih =>
      obtain ⟨g, rfl, hg⟩ := hps p List.mem_cons_self
      refine require hg hs fun a r _ hr => ?_
      exact ih (fun q hq => hps q (List.mem_cons_of_mem _ hq)) _ hr

/-- The guard's error points at the round that stalled. -/
theorem rounds {g : Grammar ι σ (ParseError ι) α} (hg : g.Accountable) {guard : String}
    (hs : Suffix s whole)
    (hguard : ∀ u, g.parse.StallsAt s u → before (Diagnostic.expected u guard)) (vs : List α) :
    (Plan.rounds anchor ⟨g, g.plan⟩ guard vs s).Accounts whole before := by
  fun_induction Plan.rounds anchor ⟨g, g.plan⟩ guard vs s with
  | case1 vs s ih =>
      refine attempt hg hs (fun a r hp hr => ?_) fun _ _ _ _ => success vs s
      split
      · rename_i hlt
        exact ih a r hlt hr fun u hu => hguard u (.later hp hlt hu)
      · rename_i hlt
        exact raise (hguard s (.here hp hlt)) hs anchor

/-- Parts that advance never need more rounds than there is input, so the guard is the only error
of the loop itself. -/
theorem separatedRounds {sep : Grammar ι σ (ParseError ι) β} {g : Grammar ι σ (ParseError ι) α}
    (hsep : sep.Accountable) (hg : g.Accountable) {guard : String} (hs : Suffix s whole)
    (hguard : ∀ u, Parser.StallsBehind sep.parse g.parse s u → before (Diagnostic.expected u guard))
    (limit : Nat) (vs : List α) :
    (Plan.separatedRounds anchor ⟨sep, sep.plan⟩ ⟨g, g.plan⟩ guard limit vs s).Accounts
      whole before := by
  fun_induction Plan.separatedRounds anchor ⟨sep, sep.plan⟩ ⟨g, g.plan⟩ guard limit vs s with
  | case1 limit vs s ihlt ihlimit =>
      refine attempt hsep hs (fun b u hsu hu => ?_) fun _ _ _ _ => success vs s
      refine attempt hg hu (fun a r hp hr => ?_) fun _ _ _ _ => success vs s
      split
      · rename_i hlt
        have hle := (hsep.advances hsu).length_le
        have hlt' : Cursor.length r < Cursor.length s := Nat.lt_of_lt_of_le hlt hle
        rw [dif_pos hlt']
        exact ihlt a r hlt' hr fun v hv => hguard v (.later hsu hp hlt hlt' hv)
      · rename_i hlt
        exact raise (hguard u (.here hsu hp hlt)) hu anchor

theorem search {g : Grammar ι σ (ParseError ι) α} (hg : g.Accountable) (hs : Suffix s whole)
    (hnone : Parser.findMatch g.parse s = .ok none →
      before (Diagnostic.expected whole "TakeUntil")) :
    (Plan.search whole ⟨g, g.plan⟩ s).Accounts whole before := by
  fun_induction Plan.search whole ⟨g, g.plan⟩ s with
  | case1 s h =>
      refine raise (hnone ?_) (.refl whole) whole
      rw [Parser.findMatch, dif_pos h]
  | case2 s h ih =>
      refine attempt hg hs (fun _ _ _ _ => success _ s) fun e o hp hf => ?_
      refine ih ((Cursor.suffix_tail s).trans hs) fun hfind => hnone ?_
      rw [Parser.findMatch, dif_neg h, hp]
      dsimp only
      rw [hf]
      exact hfind

end Plan.Accounts

/-! ## Trees -/

/-- A tree that advances is accountable if its plans account for their failures by what the tree
raises itself and what is raised in the trees that it calls. -/
theorem Grammar.Accountable.of_plan {g : Grammar ι σ (ParseError ι) α} (hadv : g.parse.Advances)
    (hplan : ∀ s, (g.plan s).Accounts s (g.Raises s)) : g.Accountable where
  advances := hadv
  accounted {s o e} h := by
    rw [← outcome_plan] at h
    refine (hplan s h).mono fun f hf => ?_
    rcases hf with hf | ⟨β, p, t, o', hev, hraises⟩
    · obtain ⟨o', ho'⟩ := hf.parse_eq
      refine ⟨α, g, s, o', ?_, hf⟩
      rw [log_eq, ← ho']
      simp
    · exact ⟨β, p, t, o', mem_log_of_mem_plan hev, hraises⟩

namespace Scheme

theorem plan_accounts (T : Scheme ι (Builtin ι σ) Rejection α) (s : ι) :
    ((T.fill Builtin.tree).plan s).Accounts s ((T.fill Builtin.tree).Raises s) := by
  -- the parts of a tree are accountable by the hypotheses of the induction
  have part : ∀ {γ : Type} {T : Scheme ι (Builtin ι σ) Rejection γ},
      (∀ s, ((T.fill Builtin.tree).plan s).Accounts s ((T.fill Builtin.tree).Raises s)) →
        (T.fill Builtin.tree).Accountable := fun {γ T} =>
    .of_plan (Grammar.parse_advances _ (T.leavesSatisfy_builtin _))
  induction T generalizing s with
  | slot i =>
      cases i with
      | primitive p =>
          intro e o h
          exact .raised (.inl (.source (.primitive h))) (p.parse_pointsAhead h)
      | integerAs read =>
          intro e o h
          exact .raised (.inl (.source (.integerAs h))) (Parser.PointsAhead.integerAs read h)
  | succeed a => exact .success a s
  | fail d => exact .raise (.fail d s) (.refl s) s
  | endOfInput =>
      intro e o h
      by_cases hs : Cursor.isEmpty s = true
      · exact absurd (h.symm.trans (if_pos hs)) nofun
      · cases h.symm.trans (if_neg hs)
        exact .raised (.inl (.endOfInput (Bool.eq_false_iff.2 hs))) (.refl s)
  | map f p ih =>
      refine .call (part ih) (.refl s) (fun a r _ _ => .success (f a) r) fun e o _ he => ?_
      exact .handOn (he.mono fun _ => .inr) o
  | tryMap f p ih =>
      refine .require (part ih) (.refl s) fun a r hp _ => ?_
      cases hf : f a with
      | ok b => exact .success b r
      | error x => exact .raise (.source (.tryMap hp hf)) (x.suffix_raise s) s
  | label d p ih =>
      refine .call (part ih) (.refl s) (fun a r _ _ => .success a r) fun e o hp he => ?_
      dsimp only
      split
      · exact .handOn (he.mono fun _ => .inr) o
      · rename_i hf
        have hsuf : Suffix (Diagnostic.relabel d e).position s := he.suffix
        refine .raise ?_ hsuf o
        exact .inl (.label hp (Bool.eq_false_iff.2 hf))
  | verify check p ih =>
      refine .require (part ih) (.refl s) fun a r hp _ => ?_
      split
      · exact .success a r
      · rename_i hc
        exact .raise (.verify hp (Bool.eq_false_iff.2 hc)) (.refl s) s
  | complete p ih =>
      refine .call (part ih) (.refl s) (fun a r hp hr => ?_) fun e o _ he => ?_
      · dsimp only
        split
        · exact .success a r
        · rename_i hc
          exact .raise (.complete hp (Bool.eq_false_iff.2 hc)) hr s
      · exact .handOn (he.mono fun _ => .inr) o
  | notFollowedBy p ih =>
      refine .attempt (part ih) (.refl s) (fun a r hp _ => ?_) fun _ _ _ _ => .success () s
      exact .raise (.notFollowedBy hp) (.refl s) s
  | optional p ih =>
      exact .attempt (part ih) (.refl s) (fun a r _ _ => .success (some a) r)
        fun _ _ _ _ => .success none s
  | withDefault a p ih =>
      exact .attempt (part ih) (.refl s) (fun b r _ _ => .success b r) fun _ _ _ _ => .success a s
  | lookahead p ih => exact .require (part ih) (.refl s) fun a _ _ _ => .success a s
  | spanOf p ih => exact .require (part ih) (.refl s) fun _ r _ _ => .success _ r
  | yielding b p ih => exact .require (part ih) (.refl s) fun _ r _ _ => .success b r
  | takeUntil p ih => exact .search (part ih) (.refl s) .takeUntil
  | orElse p q ihp ihq =>
      refine .call (part ihp) (.refl s) (fun a r _ _ => .success a r) fun e o _ he => ?_
      dsimp only
      split
      · exact .handOn (he.mono fun _ => .inr) o
      · refine .call (part ihq) (.refl s) (fun a r _ _ => .success a r) fun f t _ hf => ?_
        dsimp only
        split
        · exact .handOn (hf.mono fun _ => .inr) t
        · exact .handOn ((he.mono fun _ h => .inl (.inr h)).merge (hf.mono fun _ => .inr)) s
  | firstOf n ps ih =>
      refine .alternatives (fun p hp => ?_) (fun e he => by cases he) fun _ hnil => ?_
      · obtain ⟨i, rfl⟩ := List.mem_ofFn.1 hp
        exact ⟨_, rfl, part (ih i)⟩
      · cases List.ofFn_eq_nil_iff.1 hnil
        exact .firstOf _ s
  | pair p q ihp ihq =>
      refine .require (part ihp) (.refl s) fun _ r _ hr => ?_
      exact .require (part ihq) hr fun _ t _ _ => .success _ t
  | separatedPair p sep q ihp ihsep ihq =>
      refine .require (part ihp) (.refl s) fun _ r _ hr => ?_
      refine .require (part ihsep) hr fun _ t _ ht => ?_
      exact .require (part ihq) ht fun _ u _ _ => .success _ u
  | seqRight p q ihp ihq =>
      refine .require (part ihp) (.refl s) fun _ r _ hr => ?_
      exact .require (part ihq) hr fun b t _ _ => .success b t
  | seqLeft p q ihp ihq =>
      refine .require (part ihp) (.refl s) fun a r _ hr => ?_
      exact .require (part ihq) hr fun _ t _ _ => .success a t
  | between p q close ihp ihq ihclose =>
      refine .require (part ihp) (.refl s) fun _ r _ hr => ?_
      refine .require (part ihq) hr fun b t _ ht => ?_
      exact .require (part ihclose) ht fun _ u _ _ => .success b u
  | sequence n ps ih =>
      refine .inTurn (fun p hp => ?_) [] (.refl s)
      obtain ⟨i, rfl⟩ := List.mem_ofFn.1 hp
      exact ⟨_, rfl, part (ih i)⟩
  | times p n ih =>
      unfold fill Grammar.plan
      split
      · rename_i h
        exact .raise (.times h) (.refl s) s
      · refine .inTurn (fun p hp => ?_) [] (.refl s)
        exact ⟨_, List.eq_of_mem_replicate hp, part ih⟩
  | many p ih => exact .rounds (part ih) (.refl s) (fun u hu => .many hu) []
  | many1 p ih =>
      refine .require (part ih) (.refl s) fun a r hp hr => ?_
      split
      · rename_i hlt
        exact .rounds (part ih) hr (fun u hu => .many1 (.later hp hlt hu)) [a]
      · rename_i hlt
        exact .raise (.many1 (.here hp hlt)) (.refl s) s
  | sepBy sep p ihsep ihp =>
      refine .attempt (part ihp) (.refl s) (fun a r hp hr => ?_) fun _ _ _ _ => .success [] s
      split
      · rename_i hlt
        exact .separatedRounds (part ihsep) (part ihp) hr
          (fun u hu => .sepBy (.behind hp hlt hu)) _ [a]
      · rename_i hlt
        exact .raise (.sepBy (.first hp hlt)) (.refl s) s
  | sepBy1 sep p ihsep ihp =>
      refine .require (part ihp) (.refl s) fun a r hp hr => ?_
      split
      · rename_i hlt
        exact .separatedRounds (part ihsep) (part ihp) hr
          (fun u hu => .sepBy1 (.behind hp hlt hu)) _ [a]
      · rename_i hlt
        exact .raise (.sepBy1 (.first hp hlt)) (.refl s) s

/-- **Where errors come from.**  If a tree of library parsers and combinators fails, its error
points at a suffix of the input: the one that is left behind as many storage units as its offset
says.  It expects just what one or more errors at that very place expect, each of which a tree has
raised in this run and failed with. -/
theorem parse_failure_accounted (T : Scheme ι (Builtin ι σ) Rejection α) {s o : ι}
    {e : ParseError ι} (h : (T.fill Builtin.tree).parse s = .failure e o) :
    Suffix e.position s ∧
    Cursor.length e.position ≤ Cursor.length s ∧
    e.offset s + Cursor.length e.position = Cursor.length s ∧
    Cursor.dropUnits? (e.offset s) s = some e.position ∧
    ∃ raised : List (ParseError ι), raised ≠ [] ∧
      (∀ f ∈ raised, f.position = e.position ∧ RaisedIn ((T.fill Builtin.tree).log s) f) ∧
      e.expected = raised.flatMap (·.expected) := by
  have hadv := (T.fill Builtin.tree).parse_advances (T.leavesSatisfy_builtin _)
  have hacc := (Grammar.Accountable.of_plan hadv T.plan_accounts).accounted h
  have hle := hacc.suffix.length_le
  exact ⟨hacc.suffix, hle, Nat.sub_add_cancel hle, hacc.suffix.dropUnits?_eq, hacc.expected⟩

end Scheme

/-- An `é`, and behind it two letters or a letter and a numeral. -/
def lettersOrNumeral : Scheme Text (Builtin Text Char) Rejection (List Char) :=
  .seqRight (.slot (.primitive (.char 'é')))
    (.orElse (.times (.slot (.primitive (.char 'a'))) 2)
      (.seqRight (.slot (.primitive (.char 'a')))
        (.yielding [] (.label "numeral" (.slot (.primitive (.integer (.integer (.nat 8)))))))))

/-- Both ways end in front of the `b`, three bytes into `éab`. -/
theorem parse_failure_accounted_lettersOrNumeral :
    (lettersOrNumeral.fill Builtin.tree).parse (.ofString "éab") =
      .failure (.new (.ofString "b") ["Char(a)", "numeral"]) (.ofString "éab") ∧
    Cursor.dropUnits? 3 (Text.ofString "éab") = some (.ofString "b") ∧
    ∃ raised : List (ParseError Text), raised ≠ [] ∧
      (∀ f ∈ raised, f.position = .ofString "b" ∧
        RaisedIn ((lettersOrNumeral.fill Builtin.tree).log (.ofString "éab")) f) ∧
      ["Char(a)", "numeral"] = raised.flatMap (·.expected) := by
  have hparse : (lettersOrNumeral.fill Builtin.tree).parse (.ofString "éab") =
    .failure (.new (.ofString "b") ["Char(a)", "numeral"]) (.ofString "éab") := rfl
  obtain ⟨_, _, _, hdrop, hraised⟩ := lettersOrNumeral.parse_failure_accounted hparse
  exact ⟨hparse, hdrop, hraised⟩

end ParserAlgebra
