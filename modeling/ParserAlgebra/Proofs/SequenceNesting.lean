import Mathlib.Data.List.Basic
import ParserAlgebra.Combinator.Nest
import ParserAlgebra.Primitive.Match

/-!
# Nests of pairs

Joined two at a time, the parsers of a list can be bracketed in many ways.  Apart from the form of
their value, pairs see nothing of the brackets: they do what the sequence of all their leaves does.

* `Nest.tuple_eq_leaves` — the pattern of a range of names fits the balanced nest of a list as long
  as the range, and lists its leaves in order.
* `Parser.pairs` — the parsers of a nest joined by pairs, and nothing else.
* `Parser.InTurn`, `Parser.FailsInTurn` — parsers that run one after another, each on what the one
  before it left: all of them succeed, or one fails.
* `Parser.pairs_eq_sequence` — nests of pairs against sequences.
-/

set_option autoImplicit false

namespace ParserAlgebra

universe u v

/-! ## Patterns -/

namespace Nest

variable {α : Type u} {β : Type v}

/-- A nest without its leaves. -/
def shape (t : Nest α) : Nest Unit := t.map fun _ => ()

theorem length_leaves_of_shape {t : Nest α} {t' : Nest β} (h : t.shape = t'.shape) :
    t.leaves.length = t'.leaves.length := by
  simpa [shape, leaves_map] using congrArg (fun n => n.leaves.length) h

/-- The range of the names is cut at the same places as the list. -/
theorem shape_pattern (as : List α) (h : as ≠ []) (start : Nat) :
    (pattern start (start + as.length)).shape = (balanced as h).shape := by
  fun_induction balanced as h generalizing start with
  | case1 a =>
      rw [pattern, if_pos (by simp)]
      rfl
  | case2 a b as _ k _ ihl ihr =>
      have hlen : (a :: b :: as).length = as.length + 2 := rfl
      have hk : k = (as.length + 2) / 2 := rfl
      -- the middle of the range is as many names on as the first half of the list is long
      have hmid : start + (start + (as.length + 2) - start) / 2 = start + k := by omega
      have htake : ((a :: b :: as).take k).length = k := by
        rw [List.length_take]
        omega
      have hdrop : start + k + ((a :: b :: as).drop k).length = start + (as.length + 2) := by
        rw [List.length_drop]
        omega
      have hl := ihl start
      have hr := ihr (start + k)
      rw [htake] at hl
      rw [hdrop] at hr
      rw [hlen, pattern, if_neg (by omega), hmid]
      simp only [shape, map, node.injEq] at hl hr ⊢
      exact ⟨hl, hr⟩

theorem leaves_pattern (start stop : Nat) (h : start < stop) :
    (pattern start stop).leaves = List.range' start (stop - start) := by
  fun_induction pattern start stop with
  | case1 start stop hle =>
      have hone : stop - start = 1 := by omega
      rw [hone]
      rfl
  | case2 start stop hlt mid ihl ihr =>
      have hmid : mid = start + (stop - start) / 2 := rfl
      have hsplit : stop - start = mid - start + (stop - mid) := by omega
      have hstart : mid = start + 1 * (mid - start) := by omega
      rw [leaves, ihl (by omega), ihr (by omega), hsplit, ← List.range'_append, ← hstart]

/-- Over a nest of its own shape, a pattern names every leaf. -/
theorem bindings_eq_zip (p : Nest Nat) (t : Nest α) (h : p.shape = t.shape) :
    p.bindings t = p.leaves.zip t.leaves := by
  induction p generalizing t with
  | leaf i =>
      cases t with
      | leaf a => rfl
      | node l r => cases h
  | node p q ihp ihq =>
      cases t with
      | leaf a => cases h
      | node l r =>
          simp only [shape, map, node.injEq] at h
          rw [bindings, leaves, leaves, ihp l h.1, ihq r h.2,
            List.zip_append (length_leaves_of_shape h.1)]

theorem filterMap_lookup_zip {ks : List Nat} (hks : ks.Nodup) {as : List α}
    (h : ks.length = as.length) : (ks.filterMap fun k => (ks.zip as).lookup k) = as := by
  induction ks generalizing as with
  | nil => exact (List.length_eq_zero_iff.1 h.symm).symm
  | cons k ks ih =>
      cases as with
      | nil => cases h
      | cons a as =>
          obtain ⟨hk, hks⟩ := List.nodup_cons.1 hks
          have hrest : ∀ i ∈ ks, ((k :: ks).zip (a :: as)).lookup i = (ks.zip as).lookup i := by
            intro i hi
            have hne : (i == k) = false := beq_false_of_ne fun hik => hk (hik ▸ hi)
            rw [List.zip_cons_cons, List.lookup_cons, hne]
          have hfirst : ((k :: ks).zip (a :: as)).lookup k = some a := by
            rw [List.zip_cons_cons, List.lookup_cons, beq_self_eq_true]
          rw [List.filterMap_cons_some (f := fun i => ((k :: ks).zip (a :: as)).lookup i) hfirst,
            List.filterMap_congr hrest, ih hks (Nat.succ.inj h)]

/-- A nest of the shape of a balanced one is listed in order by the pattern of its length. -/
theorem tuple_eq_leaves (as : List β) (h : as ≠ []) (t : Nest α)
    (ht : t.shape = (balanced as h).shape) : tuple as.length t = t.leaves := by
  have hlen : t.leaves.length = as.length := by
    rw [length_leaves_of_shape ht, leaves_balanced]
  have hpos : 0 < as.length := List.length_pos_iff.2 h
  have hshape : (pattern 0 as.length).shape = t.shape := by
    rw [ht, ← shape_pattern as h 0, Nat.zero_add]
  have hnames : (pattern 0 as.length).leaves = List.range as.length := by
    rw [leaves_pattern 0 as.length hpos, List.range_eq_range', Nat.sub_zero]
  rw [tuple, bindings_eq_zip _ t hshape, hnames]
  exact filterMap_lookup_zip List.nodup_range (by rw [List.length_range, hlen])

/-! ## Values -/

/-- The value of a nest of pairs: for each leaf a value, paired as the leaves are. -/
def Values (γ : Type) : Nest α → Type
  | leaf _ => γ
  | node l r => Pair (l.Values γ) (r.Values γ)

/-- Such a value as a nest. -/
def ofValues {γ : Type} : (t : Nest α) → t.Values γ → Nest γ
  | leaf _, c => leaf c
  | node l r, v => node (ofValues l v.left) (ofValues r v.right)

theorem shape_ofValues {γ : Type} (t : Nest α) (v : t.Values γ) :
    (ofValues t v).shape = t.shape := by
  induction t with
  | leaf a => rfl
  | node l r ihl ihr => exact congrArg₂ node (ihl v.left) (ihr v.right)

end Nest

namespace Parser

variable {ι ε α : Type}

/-! ## Sequences -/

/-- The values and the rest of parsers that succeed one after another, each on what the one before
it left. -/
inductive InTurn : List (Parser ι ε α) → ι → List α → ι → Prop
  | nil (s : ι) : InTurn [] s [] s
  | cons {p : Parser ι ε α} {ps : List (Parser ι ε α)} {s r t : ι} {a : α} {as : List α}
      (hp : p s = .success a r) (h : InTurn ps r as t) : InTurn (p :: ps) s (a :: as) t

theorem InTurn.length_eq {ps : List (Parser ι ε α)} {s r : ι} {as : List α}
    (h : InTurn ps s as r) : as.length = ps.length := by
  induction h with
  | nil => rfl
  | cons _ _ ih => rw [List.length_cons, List.length_cons, ih]

theorem InTurn.append {ps qs : List (Parser ι ε α)} {s r t : ι} {as bs : List α}
    (hps : InTurn ps s as r) (hqs : InTurn qs r bs t) : InTurn (ps ++ qs) s (as ++ bs) t := by
  induction hps with
  | nil => exact hqs
  | cons hp _ ih => exact .cons hp (ih hqs)

/-- The error of the first parser that fails, of parsers run one after another. -/
inductive FailsInTurn : List (Parser ι ε α) → ι → ε → Prop
  | here {p : Parser ι ε α} {s o : ι} {e : ε} (hp : p s = .failure e o)
      (ps : List (Parser ι ε α)) : FailsInTurn (p :: ps) s e
  | behind {p : Parser ι ε α} {ps : List (Parser ι ε α)} {s r : ι} {a : α} {e : ε}
      (hp : p s = .success a r) (h : FailsInTurn ps r e) : FailsInTurn (p :: ps) s e

theorem FailsInTurn.append_right {ps : List (Parser ι ε α)} {s : ι} {e : ε}
    (h : FailsInTurn ps s e) (qs : List (Parser ι ε α)) : FailsInTurn (ps ++ qs) s e := by
  induction h with
  | here hp ps => exact .here hp (ps ++ qs)
  | behind hp _ ih => exact .behind hp ih

theorem InTurn.append_fails {ps qs : List (Parser ι ε α)} {s r : ι} {as : List α} {e : ε}
    (hps : InTurn ps s as r) (hqs : FailsInTurn qs r e) : FailsInTurn (ps ++ qs) s e := by
  induction hps with
  | nil => exact hqs
  | cons hp _ ih => exact .behind hp (ih hqs)

theorem collect_eq_ok_iff {ps : List (Parser ι ε α)} {s r : ι} {as : List α} :
    collect ps s = .ok (as, r) ↔ InTurn ps s as r := by
  constructor
  · intro h
    induction ps generalizing s as with
    | nil =>
        cases h
        exact .nil _
    | cons p ps ih =>
        unfold collect at h
        split at h
        · rename_i hp
          obtain ⟨bs, rfl, hps⟩ := prepend_eq_ok_iff.1 h
          exact .cons hp (ih hps)
        · cases h
  · intro h
    induction h with
    | nil => rfl
    | cons hp _ ih =>
        unfold collect
        rw [hp]
        exact prepend_eq_ok_iff.2 ⟨_, rfl, ih⟩

theorem collect_eq_error_iff {ps : List (Parser ι ε α)} {s : ι} {e : ε} :
    collect ps s = .error e ↔ FailsInTurn ps s e := by
  constructor
  · intro h
    induction ps generalizing s with
    | nil => cases h
    | cons p ps ih =>
        unfold collect at h
        split at h
        · rename_i hp
          exact .behind hp (ih (prepend_eq_error_iff.1 h))
        · rename_i hp
          cases h
          exact .here hp ps
  · intro h
    induction h with
    | here hp ps => rw [collect, hp]
    | behind hp _ ih =>
        rw [collect, hp]
        exact prepend_eq_error_iff.2 ih

theorem sequence_eq_success_iff {ps : List (Parser ι ε α)} {s r : ι} {as : List α} :
    sequence ps s = .success as r ↔ InTurn ps s as r :=
  Outcome.ofExcept_eq_success_iff.trans collect_eq_ok_iff

theorem sequence_eq_failure_iff {ps : List (Parser ι ε α)} {s o : ι} {e : ε} :
    sequence ps s = .failure e o ↔ FailsInTurn ps s e ∧ s = o := by
  rw [← collect_eq_error_iff]
  exact Outcome.ofExcept_eq_failure_iff

/-! ## Nests of pairs -/

/-- The leaves of a nest joined by pairs. -/
def pairs : (t : Nest (Parser ι ε α)) → Parser ι ε (t.Values α)
  | .leaf p => p
  | .node l r => pair (pairs l) (pairs r)

theorem pairs_node (l r : Nest (Parser ι ε α)) :
    pairs (.node l r) = pair (pairs l) (pairs r) := rfl

theorem nestedSequence_eq_pairs (t : Nest (Parser ι ε α)) :
    nestedSequence t = map t.ofValues (pairs t) := by
  induction t with
  | leaf p => rfl
  | node l r ihl ihr =>
      funext s
      rw [nestedSequence, ihl, ihr, pairs_node]
      dsimp only [map, pair]
      cases pairs l s with
      | failure e o => rfl
      | success v u =>
          dsimp only [Outcome.map]
          cases pairs r u <;> rfl

theorem pairs_eq_success {t : Nest (Parser ι ε α)} {s r : ι} {v : t.Values α}
    (h : pairs t s = .success v r) : InTurn t.leaves s (t.ofValues v).leaves r := by
  induction t generalizing s r with
  | leaf p => exact .cons h (.nil r)
  | node l r ihl ihr =>
      rw [pairs_node] at h
      unfold pair at h
      split at h
      · rename_i hl
        split at h
        · rename_i hr
          cases h
          exact (ihl hl).append (ihr hr)
        · cases h
      · cases h

theorem pairs_eq_failure {t : Nest (Parser ι ε α)} {s o : ι} {e : ε}
    (h : pairs t s = .failure e o) : FailsInTurn t.leaves s e := by
  induction t generalizing s o with
  | leaf p => exact .here h []
  | node l r ihl ihr =>
      rw [pairs_node] at h
      unfold pair at h
      split at h
      · rename_i hl
        split at h
        · cases h
        · rename_i hr
          cases h
          exact (pairs_eq_success hl).append_fails (ihr hr)
      · rename_i hl
        cases h
        exact (ihl hl).append_right r.leaves

theorem pair_origin {β : Type} {p : Parser ι ε α} {q : Parser ι ε β} {s o : ι} {e : ε}
    (h : pair p q s = .failure e o) : o = s := by
  unfold pair at h
  split at h
  · split at h
    · cases h
    · cases h
      rfl
  · cases h
    rfl

/-- A nest of pairs that anchors its failures at its input is the sequence of its leaves, once its
values are listed. -/
theorem list_pairs (t : Nest (Parser ι ε α)) {s : ι}
    (hs : ∀ e o, pairs t s = .failure e o → o = s) :
    map (fun v => (t.ofValues v).leaves) (pairs t) s = sequence t.leaves s := by
  unfold map
  cases h : pairs t s with
  | success v r => exact (sequence_eq_success_iff.2 (pairs_eq_success h)).symm
  | failure e o => exact (sequence_eq_failure_iff.2 ⟨pairs_eq_failure h, (hs e o h).symm⟩).symm

theorem list_pairs_of_two_le {t : Nest (Parser ι ε α)} (h : 2 ≤ t.leaves.length) :
    map (fun v => (t.ofValues v).leaves) (pairs t) = sequence t.leaves := by
  cases t with
  | leaf p => exact absurd h (by simp [Nest.leaves])
  | node l r => exact funext fun s => list_pairs (.node l r) fun _ _ => pair_origin

theorem balancedSequence_cons (p : Parser ι ε α) (ps : List (Parser ι ε α)) :
    balancedSequence (p :: ps) =
      map (fun v => (Nest.ofValues _ v).leaves) (pairs (.balanced (p :: ps) (by simp))) := by
  funext s
  rw [balancedSequence, nestedSequence_eq_pairs]
  unfold map
  cases pairs (.balanced (p :: ps) (by simp)) s with
  | failure e o => rfl
  | success v r =>
      have hshape := Nest.shape_ofValues (.balanced (p :: ps) (by simp)) v
      exact congrArg (Outcome.success · r) (Nest.tuple_eq_leaves (p :: ps) (by simp) _ hshape)

/-- **Any nesting of sequencing is the same sequence.**  A nest of at least two parsers joined by
pairs, with its values listed in order, does what the sequence of its leaves does, and so does the
balanced nest that is taken apart by its pattern.  A sequence succeeds with the values of all its
parsers, run in turn, or fails at its input with the error of the first that fails.  The sequence of
nothing takes nothing either way, and for one parser the two agree wherever it anchors its failures
at its input. -/
theorem pairs_eq_sequence :
    (∀ t : Nest (Parser ι ε α), 2 ≤ t.leaves.length →
      map (fun v => (t.ofValues v).leaves) (pairs t) = sequence t.leaves) ∧
    (∀ ps : List (Parser ι ε α), 2 ≤ ps.length → balancedSequence ps = sequence ps) ∧
    (∀ (ps : List (Parser ι ε α)) (s : ι),
      (∀ as r, sequence ps s = .success as r ↔ InTurn ps s as r) ∧
      (∀ as r, InTurn ps s as r → as.length = ps.length) ∧
      ∀ e o, sequence ps s = .failure e o ↔ FailsInTurn ps s e ∧ s = o) ∧
    (∀ s : ι, balancedSequence ([] : List (Parser ι ε α)) s = .success [] s ∧
      sequence ([] : List (Parser ι ε α)) s = .success [] s) ∧
    ∀ (p : Parser ι ε α) (s : ι), (∀ e o, p s = .failure e o → o = s) →
      balancedSequence [p] s = sequence [p] s := by
  refine ⟨fun t => list_pairs_of_two_le, fun ps hps => ?_, fun ps s => ⟨?_, ?_, ?_⟩,
    fun s => ⟨rfl, rfl⟩, fun p s hp => ?_⟩
  · cases ps with
    | nil => cases hps
    | cons p ps =>
        have hleaves := Nest.leaves_balanced (p :: ps) (by simp)
        rw [balancedSequence_cons, list_pairs_of_two_le (by rwa [hleaves]), hleaves]
  · exact fun as r => sequence_eq_success_iff
  · exact fun as r => InTurn.length_eq
  · exact fun e o => sequence_eq_failure_iff
  · have hleaf : Nest.balanced [p] (by simp) = .leaf p := by rw [Nest.balanced]
    rw [balancedSequence_cons, hleaf]
    exact list_pairs (.leaf p) hp

/-- `a`, any symbol and `b`, joined from the left. -/
def aroundAny : Nest (Parser Text (ParseError Text) Char) :=
  .node (.node (.leaf (char 'a')) (.leaf anySymbol)) (.leaf (char 'b'))

/-- A success on `aéb!`, and a failure behind the second symbol of `aéc`. -/
theorem pairs_eq_sequence_aroundAny :
    2 ≤ aroundAny.leaves.length ∧
    map (fun v => (aroundAny.ofValues v).leaves) (pairs aroundAny) (Text.ofString "aéb!") =
      .success ['a', 'é', 'b'] (Text.ofString "!") ∧
    InTurn aroundAny.leaves (Text.ofString "aéb!") ['a', 'é', 'b'] (Text.ofString "!") ∧
    balancedSequence aroundAny.leaves (Text.ofString "aéc") =
      .failure (Diagnostic.expected (Text.ofString "c") "Char(b)") (Text.ofString "aéc") ∧
    balancedSequence [char 'b'] (Text.ofString "aé") =
      sequence [char 'b'] (Text.ofString "aé") := by
  obtain ⟨hnest, hbalanced, hsequence, -, hone⟩ :=
    pairs_eq_sequence (ι := Text) (ε := ParseError Text) (α := Char)
  have hlen : 2 ≤ aroundAny.leaves.length := by decide
  refine ⟨hlen, ?_, ?_, ?_, ?_⟩
  · rw [hnest _ hlen]
    rfl
  · exact ((hsequence _ _).1 _ _).1 rfl
  · rw [hbalanced _ hlen]
    rfl
  · refine hone _ _ fun e o h => ?_
    cases h
    rfl

end Parser

end ParserAlgebra
