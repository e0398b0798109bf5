import ParserAlgebra.Proofs.CallBounds
import ParserAlgebra.Proofs.SequenceNesting

/-!
# Unrolling repetitions

A parser that makes the input shorter whenever it matches never meets the guard of a repetition.
What is left of the repetition is a plain loop: matches in turn, up to the first failure.  So the
repetitions can be expressed by each other, by pairs and by options.

* `Parser.Shortens` — every match makes the input shorter.
* `Parser.gather_eq_ok_iff`, `Parser.gather_eq_error_iff` — the loop ends where the parser gives up,
  or with the error of the match at which it aborts.
* `Parser.gatherSep_eq_gather` — rounds of a separator and an element are rounds of one parser.
* `Parser.many_unrolls` — repetitions of one parser.
* `Parser.sepBy_unrolls` — lists with separators.
-/

set_option autoImplicit false

namespace ParserAlgebra.Parser

variable {ι σ ε α β : Type}

section Failures

variable [Diagnostic ε ι]

/-- The parser fails recoverably. -/
def GivesUp (p : Parser ι ε α) (s : ι) : Prop :=
  ∃ e o, p s = .failure e o ∧ Diagnostic.isFatal e = false

/-- The parser fails fatally. -/
def Aborts (p : Parser ι ε α) (s : ι) (e : ε) : Prop :=
  ∃ o, p s = .failure e o ∧ Diagnostic.isFatal e = true

theorem seqRight_givesUp_iff {p : Parser ι ε α} {q : Parser ι ε β} {s : ι} :
    (seqRight p q).GivesUp s ↔ p.GivesUp s ∨ ∃ a r, p s = .success a r ∧ q.GivesUp r := by
  unfold GivesUp seqRight
  cases p s with
  | failure e o => simp
  | success a r =>
      cases hr : q r with
      | failure e o => simp [hr]
      | success b t => simp [hr]

/-- What is read as a default where it is missing is the default. -/
theorem map_getD_optional (d : α) (p : Parser ι ε α) :
    map (fun v => v.getD d) (optional p) = withDefault d p := by
  funext s
  unfold map optional withDefault
  cases p s with
  | success a r => rfl
  | failure e o => cases h : Diagnostic.isFatal e <;> simp [h, Outcome.map]

end Failures

section Pairs

variable {p : Parser ι ε α} {s : ι}

/-- One match in front of a list that is told by its outcome. -/
theorem map_cons_pair_of_success {r : ι} {a : α} (h : p s = .success a r)
    {ps : Parser ι ε (List α)} {x : Except ε (List α × ι)} (hps : ps r = .ofExcept r x) :
    map (fun v => v.left :: v.right) (pair p ps) s = .ofExcept s (prepend a x) := by
  have hpair : pair p ps s = (Outcome.ofExcept s x).map (Pair.mk a) := by
    rw [pair, h]
    dsimp only
    rw [hps]
    cases x <;> rfl
  rw [map, hpair]
  cases x <;> rfl

theorem map_pair_of_failure {γ : Type} {e : ε} {o : ι} (h : p s = .failure e o)
    (f : Pair α β → γ) (q : Parser ι ε β) : map f (pair p q) s = .failure e s := by
  rw [map, pair, h]
  rfl

end Pairs

variable [Cursor ι σ]

/-- Every match leaves less than it was given. -/
def Shortens (p : Parser ι ε α) : Prop :=
  ∀ ⦃s r : ι⦄ ⦃a : α⦄, p s = .success a r → Cursor.length r < Cursor.length s

theorem Shortens.seqRight {sep : Parser ι ε β} (hsep : sep.NeverGrows) {p : Parser ι ε α}
    (hp : p.Shortens) : (seqRight sep p).Shortens := by
  intro s r a h
  unfold Parser.seqRight at h
  split at h
  · rename_i u hs
    split at h
    · rename_i hu
      cases h
      have hus := hsep hs
      have hru := hp hu
      omega
    · cases h
  · cases h

theorem Shortens.symbolWhere (descriptor : String) (accepts : σ → Bool) :
    (symbolWhere descriptor accepts : Parser ι (ParseError ι) σ).Shortens := by
  intro s r a h
  unfold Parser.symbolWhere at h
  split at h
  · rename_i hn
    split at h <;> cases h
    exact Cursor.length_lt_of_next? hn
  · cases h

theorem Shortens.tryMap {ρ : Type} [Seed ρ ε ι] {p : Parser ι ε α} (hp : p.Shortens)
    (f : α → Except ρ β) : (p.tryMap f).Shortens := by
  intro s r b h
  unfold Parser.tryMap at h
  split at h
  · rename_i hs
    split at h <;> cases h
    exact hp hs
  · cases h

theorem Shortens.spanOf {p : Parser ι ε α} (hp : p.Shortens) : p.spanOf.Shortens := by
  intro s r u h
  unfold Parser.spanOf at h
  split at h
  · rename_i hs
    cases h
    exact hp hs
  · cases h

variable [Diagnostic ε ι]

/-! ## The loop -/

/-- A loop that ends well has run its parser in turn, up to where it gave up.  This is so whether or
not the loop could have been stopped by its guard. -/
theorem inTurn_of_gather {p : Parser ι ε α} {guard : String} {s r : ι} {as : List α}
    (h : gather p guard s = .ok (as, r)) :
    InTurn (List.replicate as.length p) s as r ∧ p.GivesUp r := by
  fun_induction gather p guard s generalizing as with
  | case1 s a t hs _ ih =>
      obtain ⟨bs, rfl, hbs⟩ := prepend_eq_ok_iff.1 h
      obtain ⟨hturn, hend⟩ := ih hbs
      exact ⟨.cons hs hturn, hend⟩
  | case2 => cases h
  | case3 => cases h
  | case4 s e o hs he =>
      cases h
      exact ⟨.nil _, e, o, hs, Bool.eq_false_iff.2 he⟩

theorem inTurn_of_many {p : Parser ι ε α} {s r : ι} {as : List α}
    (h : many p s = .success as r) :
    InTurn (List.replicate as.length p) s as r ∧ p.GivesUp r :=
  inTurn_of_gather (Outcome.ofExcept_eq_success_iff.1 h)

section Loop

variable {p : Parser ι ε α} (hp : p.Shortens)

include hp

theorem gather_of_success {s r : ι} {a : α} (h : p s = .success a r) (guard : String) :
    gather p guard s = prepend a (gather p guard r) := by
  rw [gather, h]
  exact if_pos (hp h)

/-- The guard is never met, so it makes no difference which one it is. -/
theorem gather_guard (guard guard' : String) (s : ι) : gather p guard s = gather p guard' s := by
  fun_induction gather p guard s with
  | case1 s a r hs _ ih => rw [ih, ← gather_of_success hp hs]
  | case2 s a r hs hge => exact absurd (hp hs) hge
  | case3 s e o hs he =>
      rw [gather, hs]
      exact (if_pos he).symm
  | case4 s e o hs he =>
      rw [gather, hs]
      exact (if_neg he).symm

/-- The loop ends well with the matches in turn, where the parser gives up. -/
theorem gather_eq_ok_iff {guard : String} {s r : ι} {as : List α} :
    gather p guard s = .ok (as, r) ↔
      InTurn (List.replicate as.length p) s as r ∧ p.GivesUp r := by
  constructor
  · exact inTurn_of_gather
  · rintro ⟨hturn, hend⟩
    induction as generalizing s with
    | nil =>
        cases hturn
        obtain ⟨e, o, hs, he⟩ := hend
        rw [gather, hs]
        exact if_neg (Bool.eq_false_iff.1 he)
    | cons a as ih =>
        rw [List.length_cons, List.replicate_succ] at hturn
        cases hturn with
        | cons hs hrest => rw [gather_of_success hp hs, ih hrest, prepend]

/-- The loop ends badly only where the parser aborts. -/
theorem gather_eq_error_iff {guard : String} {s : ι} {e : ε} :
    gather p guard s = .error e ↔
      ∃ as u, InTurn (List.replicate as.length p) s as u ∧ p.Aborts u e := by
  constructor
  · intro h
    fun_induction gather p guard s with
    | case1 s a t hs _ ih =>
        obtain ⟨as, u, hturn, hend⟩ := ih (prepend_eq_error_iff.1 h)
        exact ⟨a :: as, u, .cons hs hturn, hend⟩
    | case2 s a t hs hge => exact absurd (hp hs) hge
    | case3 s f o hs hf =>
        cases h
        exact ⟨[], s, .nil s, o, hs, hf⟩
    | case4 => cases h
  · rintro ⟨as, u, hturn, hend⟩
    induction as generalizing s with
    | nil =>
        cases hturn
        obtain ⟨o, hs, he⟩ := hend
        rw [gather, hs]
        exact if_pos he
    | cons a as ih =>
        rw [List.length_cons, List.replicate_succ] at hturn
        cases hturn with
        | cons hs hrest => rw [gather_of_success hp hs, ih hrest, prepend]

theorem isFatal_of_gather {guard : String} {s : ι} {e : ε} (h : gather p guard s = .error e) :
    Diagnostic.isFatal e = true := by
  obtain ⟨-, -, -, -, -, he⟩ := (gather_eq_error_iff hp).1 h
  exact he

/-- One match and then the loop is nothing that a default is read for. -/
theorem withDefault_of_prepend {guard : String} {s r : ι} {a : α} {f : Parser ι ε (List α)}
    (hf : f s = .ofExcept s (prepend a (gather p guard r))) (d : List α) :
    withDefault d f s = f s := by
  unfold withDefault
  rw [hf]
  cases hrest : gather p guard r with
  | ok x => rfl
  | error e =>
      have he := isFatal_of_gather hp hrest
      exact if_pos he

end Loop

/-- Behind separators that never grow the input, rounds of a separator and an element are rounds of
the two as one parser, and the limit is never met. -/
theorem gatherSep_eq_gather {sep : Parser ι ε β} (hsep : sep.NeverGrows) {p : Parser ι ε α}
    (hp : p.Shortens) (guard guard' : String) (limit : Nat) (s : ι) :
    gatherSep sep p guard limit s = some (gather (seqRight sep p) guard' s) := by
  have hboth := Shortens.seqRight hsep hp
  fun_induction gatherSep sep p guard limit s with
  | case1 limit s e o hs he => simp [gather, seqRight, hs, he]
  | case2 limit s e o hs he => simp [gather, seqRight, hs, he]
  | case3 limit s b u hs e o hu he => simp [gather, seqRight, hs, hu, he]
  | case4 limit s b u hs e o hu he => simp [gather, seqRight, hs, hu, he]
  | case5 limit s b u hs a r hu hru hrs ih =>
      have hround : seqRight sep p s = .success a r := by simp [seqRight, hs, hu]
      rw [ih, gather_of_success hboth hround, Option.map_some]
  | case6 s b u hs a r hu hru hrs =>
      have hus := hsep hs
      omega
  | case7 s b u hs a r hu hru hrs limit ih =>
      have hus := hsep hs
      omega
  | case8 limit s b u hs a r hu hru => exact absurd (hp hu) hru

/-! ## Repetitions of one parser -/

section Many

variable {p : Parser ι ε α} (hp : p.Shortens)

include hp

theorem many1_of_success {s r : ι} {a : α} (h : p s = .success a r) :
    many1 p s = .ofExcept s (prepend a (gather p "Many0" r)) := by
  rw [many1, h, gather_guard hp "Many0" "Many1"]
  exact if_pos (hp h)

omit hp in
theorem many1_of_failure {s o : ι} {e : ε} (h : p s = .failure e o) :
    many1 p s = .failure e s := by
  rw [many1, h]

theorem many_eq_withDefault : many p = withDefault [] (many1 p) := by
  funext s
  cases h : p s with
  | failure e o =>
      rw [withDefault, many1_of_failure h, many, gather, h]
      dsimp only
      split <;> rfl
  | success a r =>
      have hone := many1_of_success hp h
      rw [withDefault_of_prepend hp hone, hone, many, gather_of_success hp h]

theorem many1_eq_map_pair :
    many1 p = map (fun v => v.left :: v.right) (pair p (many p)) := by
  funext s
  cases h : p s with
  | failure e o => rw [many1_of_failure h, map_pair_of_failure h]
  | success a r => rw [many1_of_success hp h, map_cons_pair_of_success h rfl]

theorem many_eq_success_iff {s r : ι} {as : List α} :
    many p s = .success as r ↔ InTurn (List.replicate as.length p) s as r ∧ p.GivesUp r :=
  Outcome.ofExcept_eq_success_iff.trans (gather_eq_ok_iff hp)

theorem many_eq_failure_iff {s o : ι} {e : ε} :
    many p s = .failure e o ↔
      (∃ as u, InTurn (List.replicate as.length p) s as u ∧ p.Aborts u e) ∧ s = o := by
  rw [← gather_eq_error_iff hp]
  exact Outcome.ofExcept_eq_failure_iff

/-- **Repetitions unroll.**  For a parser that makes the input shorter with every match, any number
of matches is an option of at least one, and at least one is one match in front of any number.  As
many matches as there are succeed in turn, up to where the parser gives up; they fail where the
parser aborts, with its fatal error, and in no other way. -/
theorem many_unrolls :
    many p = map (fun v => v.getD []) (optional (many1 p)) ∧
    many1 p = map (fun v => v.left :: v.right) (pair p (many p)) ∧
    ∀ s : ι,
      (∀ as r, many p s = .success as r ↔
        InTurn (List.replicate as.length p) s as r ∧ p.GivesUp r) ∧
      ∀ e o, many p s = .failure e o ↔
        (∃ as u, InTurn (List.replicate as.length p) s as u ∧ p.Aborts u e) ∧ s = o := by
  refine ⟨?_, many1_eq_map_pair hp, fun s => ⟨?_, ?_⟩⟩
  · rw [map_getD_optional]
    exact many_eq_withDefault hp
  · exact fun as r => many_eq_success_iff hp
  · exact fun e o => many_eq_failure_iff hp

end Many

/-- Any symbol but a comma, where an exclamation mark is fatal. -/
def noBang : Parser Text (ParseError Text) Char :=
  tryMap (fun c => if c = '!' then .error (Rejection.fatal (.custom "bang")) else .ok c)
    (satisfy (· != ','))

theorem noBang_shortens : noBang.Shortens := (Shortens.symbolWhere _ _).tryMap _

/-- A success on `éa,` and a fatal failure behind the first symbol of `é!`, each by the other
repetition. -/
theorem many_unrolls_noBang :
    noBang.Shortens ∧
    map (fun v => v.getD []) (optional (many1 noBang)) (.ofString "éa,") =
      .success ['é', 'a'] (.ofString ",") ∧
    map (fun v => v.left :: v.right) (pair noBang (many noBang)) (.ofString "éa,") =
      many1 noBang (.ofString "éa,") ∧
    many noBang (.ofString "é!") =
      .failure (.newFatal (.ofString "!") (.custom "bang") []) (.ofString "é!") := by
  obtain ⟨hmany, hmany1, hends⟩ := many_unrolls noBang_shortens
  refine ⟨noBang_shortens, ?_, ?_, ?_⟩
  · have hturn : InTurn (List.replicate 2 noBang) (.ofString "éa,") ['é', 'a'] (.ofString ",") :=
      .cons rfl (.cons rfl (.nil _))
    rw [← hmany]
    exact ((hends _).1 _ _).2 ⟨hturn, _, _, rfl, rfl⟩
  · rw [← hmany1]
  · have hturn : InTurn (List.replicate 1 noBang) (.ofString "é!") ['é'] (.ofString "!") :=
      .cons rfl (.nil _)
    exact ((hends _).2 _ _).2 ⟨⟨['é'], _, hturn, _, rfl, rfl⟩, rfl⟩

/-! ## Lists with separators -/

section Separated

variable {sep : Parser ι ε β} (hsep : sep.NeverGrows) {p : Parser ι ε α} (hp : p.Shortens)

include hsep hp

theorem sepByGuarded_of_success {s r : ι} {a : α} (h : p s = .success a r) (required : Bool)
    (guard : String) :
    sepByGuarded required guard sep p s =
      .ofExcept s (prepend a (gather (seqRight sep p) "Many0" r)) := by
  rw [sepByGuarded, h]
  dsimp only
  rw [if_pos (hp h), gatherSep_eq_gather hsep hp guard "Many0"]

omit hsep hp in
theorem sepBy1_of_failure {s o : ι} {e : ε} (h : p s = .failure e o) :
    sepBy1 sep p s = .failure e s := by
  rw [sepBy1, sepByGuarded, h]
  simp

theorem sepBy1_eq_map_pair :
    sepBy1 sep p = map (fun v => v.left :: v.right) (pair p (many (seqRight sep p))) := by
  funext s
  cases h : p s with
  | failure e o => rw [sepBy1_of_failure h, map_pair_of_failure h]
  | success a r => rw [sepBy1, sepByGuarded_of_success hsep hp h, map_cons_pair_of_success h rfl]

theorem sepBy_eq_withDefault : sepBy sep p = withDefault [] (sepBy1 sep p) := by
  have hboth := Shortens.seqRight hsep hp
  funext s
  cases h : p s with
  | failure e o =>
      rw [withDefault, sepBy1_of_failure h, sepBy, sepByGuarded, h]
      simp
  | success a r =>
      have hone : sepBy1 sep p s =
          .ofExcept s (prepend a (gather (seqRight sep p) "Many0" r)) :=
        sepByGuarded_of_success hsep hp h true "SeparatedList1"
      rw [withDefault_of_prepend hboth hone, hone, sepBy, sepByGuarded_of_success hsep hp h]

theorem sepBy1_eq_success_iff {s r : ι} {vs : List α} :
    sepBy1 sep p s = .success vs r ↔
      ∃ a t as, vs = a :: as ∧ p s = .success a t ∧
        InTurn (List.replicate as.length (seqRight sep p)) t as r ∧
        (seqRight sep p).GivesUp r := by
  have hboth := Shortens.seqRight hsep hp
  cases h : p s with
  | failure e o =>
      rw [sepBy1_of_failure h]
      simp
  | success a t =>
      rw [sepBy1, sepByGuarded_of_success hsep hp h, Outcome.ofExcept_eq_success_iff,
        prepend_eq_ok_iff]
      constructor
      · rintro ⟨as, rfl, has⟩
        exact ⟨a, t, as, rfl, rfl, (gather_eq_ok_iff hboth).1 has⟩
      · rintro ⟨b, u, as, rfl, hbu, has⟩
        cases hbu
        exact ⟨as, rfl, (gather_eq_ok_iff hboth).2 has⟩

/-- **Lists with separators unroll.**  If the separator never grows the input and every match of the
element makes it shorter, then a list of at least one element is an element in front of any number
of elements with a separator before each, and a list is an option of a list of at least one.  What
remains starts right behind the last element: there the separator gives up, or the element gives up
behind it. -/
theorem sepBy_unrolls :
    sepBy1 sep p = map (fun v => v.left :: v.right) (pair p (many (seqRight sep p))) ∧
    sepBy sep p = map (fun v => v.getD []) (optional (sepBy1 sep p)) ∧
    ∀ s vs r, sepBy1 sep p s = .success vs r ↔
      ∃ a t as, vs = a :: as ∧ p s = .success a t ∧
        InTurn (List.replicate as.length (seqRight sep p)) t as r ∧
        (sep.GivesUp r ∨ ∃ b u, sep r = .success b u ∧ p.GivesUp u) := by
  refine ⟨sepBy1_eq_map_pair hsep hp, ?_, fun s vs r => ?_⟩
  · rw [map_getD_optional]
    exact sepBy_eq_withDefault hsep hp
  · rw [sepBy1_eq_success_iff hsep hp, seqRight_givesUp_iff]

end Separated

/-- A comma, or nothing at all. -/
def perhapsComma : Parser Text (ParseError Text) (Option Char) := optional (char ',')

/-- The trailing separator of `é,ab,` is not read, and the exclamation mark of `é,!` is fatal. -/
theorem sepBy_unrolls_noBang :
    perhapsComma.NeverGrows ∧ noBang.Shortens ∧
    map (fun v => v.left :: v.right) (pair noBang (many (seqRight perhapsComma noBang)))
      (.ofString "é,ab,") = .success ['é', 'a', 'b'] (.ofString ",") ∧
    map (fun v => v.getD []) (optional (sepBy1 perhapsComma noBang)) (.ofString "é,!") =
      .failure (.newFatal (.ofString "!") (.custom "bang") []) (.ofString "é,!") := by
  have hsep : perhapsComma.NeverGrows :=
    (Advances.optional (Advances.symbolWhere _ _)).neverGrows
  obtain ⟨hsepBy1, hsepBy, hends⟩ := sepBy_unrolls hsep noBang_shortens
  refine ⟨hsep, noBang_shortens, ?_, ?_⟩
  · have hturn : InTurn (List.replicate 2 (seqRight perhapsComma noBang)) (.ofString ",ab,")
        ['a', 'b'] (.ofString ",") :=
      .cons rfl (.cons rfl (.nil _))
    rw [← hsepBy1]
    exact (hends _ _ _).2 ⟨'é', _, ['a', 'b'], rfl, rfl, hturn, .inr ⟨_, _, rfl, _, _, rfl, rfl⟩⟩
  · have hrest : gather (seqRight perhapsComma noBang) "Many0" (.ofString ",!") =
        .error (.newFatal (.ofString "!") (.custom "bang") []) :=
      (gather_eq_error_iff (.seqRight hsep noBang_shortens)).2 ⟨[], _, .nil _, _, rfl, rfl⟩
    have hfirst : noBang (.ofString "é,!") = .success 'é' (.ofString ",!") := rfl
    rw [← hsepBy, sepBy, sepByGuarded_of_success hsep noBang_shortens hfirst, hrest]
    rfl

end ParserAlgebra.Parser
