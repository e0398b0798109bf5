import ParserAlgebra.Proofs.Anchoring

/-!
# Laws of sequencing

The combinators that run two or three parsers in turn are written out one by one, each for the
values that it keeps.  What they have in common is a *chain*: the next parser depends on the value
before it, runs on what was left, and every failure is anchored where the chain began.  Chains can
be bracketed either way, so the combinators can be put together from each other.

* `Parser.chain`, `Parser.chain_assoc` — chains and their brackets.
* `Parser.pair_eq_chain`, `Parser.seqRight_eq_chain`, `Parser.seqLeft_eq_chain`,
  `Parser.separatedPair_eq_chain`, `Parser.between_eq_chain` — each combinator as a chain.
* `Parser.sequencing_composes` — the combinators by each other.
-/

set_option autoImplicit false

namespace ParserAlgebra.Parser

variable {ι ε α β γ : Type}

/-! ## Chains -/

/-- A parser, and behind it the one that is chosen by its value. -/
def chain (p : Parser ι ε α) (next : α → Parser ι ε β) : Parser ι ε β := fun s =>
  match p s with
  | .success a r =>
    match next a r with
    | .success b t => .success b t
    | .failure e _ => .failure e s
  | .failure e _ => .failure e s

/-- The inner chain on the left anchors at the start, that on the right behind the first parser.
The outer one anchors anew in either case. -/
theorem chain_assoc (p : Parser ι ε α) (f : α → Parser ι ε β) (g : β → Parser ι ε γ) :
    chain (chain p f) g = chain p fun a => chain (f a) g := by
  funext s
  unfold chain
  cases p s with
  | failure e o => rfl
  | success a r =>
      dsimp only
      cases f a r with
      | failure e o => rfl
      | success b t =>
          dsimp only
          cases g b t <;> rfl

theorem Anchored.succeed (a : α) : (Parser.succeed a : Parser ι ε α).Anchored := by
  intro s e o h
  cases h

theorem Anchored.chain (p : Parser ι ε α) (next : α → Parser ι ε β) :
    (p.chain next).Anchored := by
  intro s e o h
  unfold Parser.chain at h
  split at h
  · split at h <;> cases h
    rfl
  · cases h
    rfl

/-- A chain may begin with nothing.  It anchors its failures, so what follows has to anchor them by
itself. -/
theorem succeed_chain {a : α} {next : α → Parser ι ε β} (h : (next a).Anchored) :
    chain (succeed a) next = next a := by
  funext s
  have hfirst : (succeed a : Parser ι ε α) s = .success a s := rfl
  unfold chain
  rw [hfirst]
  dsimp only
  cases hnext : next a s with
  | success b t => rfl
  | failure e o => rw [h hnext]

theorem map_chain (f : β → γ) (p : Parser ι ε α) (next : α → Parser ι ε β) :
    map f (chain p next) = chain p fun a => map f (next a) := by
  funext s
  show (chain p next s).map f = chain p (fun a s => (next a s).map f) s
  unfold chain
  cases p s with
  | failure e o => rfl
  | success a r =>
      dsimp only
      cases next a r <;> rfl

theorem map_succeed (f : α → β) (a : α) :
    map f (succeed a : Parser ι ε α) = succeed (f a) := rfl

/-! ## The combinators as chains -/

section Two

variable (p : Parser ι ε α) (q : Parser ι ε β)

theorem pair_eq_chain : pair p q = chain p fun a => chain q fun b => succeed ⟨a, b⟩ := by
  funext s
  unfold pair chain succeed
  cases p s with
  | failure e o => rfl
  | success a r =>
      dsimp only
      cases q r <;> rfl

theorem seqRight_eq_chain : seqRight p q = chain p fun _ => chain q fun b => succeed b := by
  funext s
  unfold seqRight chain succeed
  cases p s with
  | failure e o => rfl
  | success a r =>
      dsimp only
      cases q r <;> rfl

theorem seqLeft_eq_chain : seqLeft p q = chain p fun a => chain q fun _ => succeed a := by
  funext s
  unfold seqLeft chain succeed
  cases p s with
  | failure e o => rfl
  | success a r =>
      dsimp only
      cases q r <;> rfl

end Two

section Three

variable (p : Parser ι ε α) (q : Parser ι ε β) (r : Parser ι ε γ)

theorem separatedPair_eq_chain :
    separatedPair p q r =
      chain p fun a => chain q fun _ => chain r fun c => succeed ⟨a, c⟩ := by
  funext s
  unfold separatedPair chain succeed
  cases p s with
  | failure e o => rfl
  | success a t =>
      dsimp only
      cases q t with
      | failure e o => rfl
      | success b u =>
          dsimp only
          cases r u <;> rfl

theorem between_eq_chain :
    between p q r = chain p fun _ => chain q fun b => chain r fun _ => succeed b := by
  funext s
  unfold between chain succeed
  cases p s with
  | failure e o => rfl
  | success a t =>
      dsimp only
      cases q t with
      | failure e o => rfl
      | success b u =>
          dsimp only
          cases r u <;> rfl

/-! ## The combinators by each other -/

theorem between_eq_seqRight_seqLeft : between p q r = seqRight p (seqLeft q r) := by
  simp only [between_eq_chain, seqRight_eq_chain, seqLeft_eq_chain, chain_assoc, succeed_chain,
    Anchored.succeed]

theorem between_eq_seqLeft_seqRight : between p q r = seqLeft (seqRight p q) r := by
  simp only [between_eq_chain, seqRight_eq_chain, seqLeft_eq_chain, chain_assoc, succeed_chain,
    Anchored.chain]

theorem separatedPair_eq_pair_seqRight : separatedPair p q r = pair p (seqRight q r) := by
  simp only [separatedPair_eq_chain, pair_eq_chain, seqRight_eq_chain, chain_assoc, succeed_chain,
    Anchored.succeed]

theorem separatedPair_eq_pair_seqLeft : separatedPair p q r = pair (seqLeft p q) r := by
  simp only [separatedPair_eq_chain, pair_eq_chain, seqLeft_eq_chain, chain_assoc, succeed_chain,
    Anchored.chain]

end Three

theorem seqRight_eq_map_pair (p : Parser ι ε α) (q : Parser ι ε β) :
    seqRight p q = map Pair.right (pair p q) := by
  simp only [seqRight_eq_chain, pair_eq_chain, map_chain, map_succeed]

theorem seqLeft_eq_map_pair (p : Parser ι ε α) (q : Parser ι ε β) :
    seqLeft p q = map Pair.left (pair p q) := by
  simp only [seqLeft_eq_chain, pair_eq_chain, map_chain, map_succeed]

/-- **Sequencing combinators are made of each other.**  A parser between two others may have its
suffix taken off first and its prefix around that, or the other way round.  A separated pair is a
pair whose separator goes with its right side, or with its left.  Taking off a prefix or a suffix is
a pair of which one side is kept.  The two are one and the same parser each time, whatever comes of
their parts and wherever these anchor their failures. -/
theorem sequencing_composes (p : Parser ι ε α) (q : Parser ι ε β) (r : Parser ι ε γ) :
    (between p q r = seqRight p (seqLeft q r) ∧ between p q r = seqLeft (seqRight p q) r) ∧
    (separatedPair p q r = pair p (seqRight q r) ∧ separatedPair p q r = pair (seqLeft p q) r) ∧
    seqRight p q = map Pair.right (pair p q) ∧ seqLeft p q = map Pair.left (pair p q) := by
  refine ⟨⟨?_, ?_⟩, ⟨?_, ?_⟩, ?_, ?_⟩
  · exact between_eq_seqRight_seqLeft p q r
  · exact between_eq_seqLeft_seqRight p q r
  · exact separatedPair_eq_pair_seqRight p q r
  · exact separatedPair_eq_pair_seqLeft p q r
  · exact seqRight_eq_map_pair p q
  · exact seqLeft_eq_map_pair p q

end ParserAlgebra.Parser
