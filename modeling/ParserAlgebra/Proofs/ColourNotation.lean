import Mathlib.Data.Bool.AllAny
import ParserAlgebra.HexColour
import ParserAlgebra.Proofs.SequenceNesting
import ParserAlgebra.Proofs.SpanCuts

/-!
# The notation of colours

A colour is written as `#` and two hexadecimal digits for each of its parts, each digit in either
letter case.  The parser of colours reads that notation back, and accepts nothing else.

* `hexDigit`, `Colour.byteDigits`, `Colour.write` — the notation.
* `CharClass.hexDigit_contains_iff` — the digits are the characters of the class.
* `Colour.byte_of_byteDigits`, `Colour.byte_of_no_pair` — one part.
* `Colour.inTurn_three_bytes`, `Colour.failsInTurn_bytes` — parts one after another, against the
  number of pairs of digits that the input begins with.
* `Colour.parse_reads_notation` — the parser against the notation.
-/

set_option autoImplicit false

namespace ParserAlgebra

open ParserAlgebra.Parser (InTurn FailsInTurn)

/-! ## Digits -/

/-- The digit of a number below sixteen, as a letter of either case from ten on. -/
def hexDigit (upper : Bool) (n : Nat) : Char :=
  if upper then (Nat.digitChar n).toUpper else Nat.digitChar n

/-- The hexadecimal digits. -/
def hexDigits : List Char := "0123456789abcdefABCDEF".toList

theorem hexDigit_mem : ∀ (upper : Bool) (n : Nat), n < 16 → hexDigit upper n ∈ hexDigits := by
  decide

theorem exists_eq_hexDigit :
    ∀ c ∈ hexDigits, ∃ (upper : Bool) (n : Fin 16), c = hexDigit upper n :=
  List.all_iff_forall_prop.1 (by decide)

theorem digitIn?_hexDigit :
    ∀ (upper : Bool) (n : Nat), n < 16 → digitIn? 16 (hexDigit upper n) = some n := by
  decide

theorem hexDigits_noSign : ∀ c ∈ hexDigits, c ≠ '+' ∧ c ≠ '-' :=
  List.all_iff_forall_prop.1 (by decide)

theorem hexDigits_ascii : ∀ c ∈ hexDigits, c.toNat < 128 ∧ c.utf8Size = 1 :=
  List.all_iff_forall_prop.1 (by decide)

theorem CharClass.hexDigit_contains_ascii :
    ∀ n, n < 128 → hexDigit.contains (Char.ofNat n) = decide (Char.ofNat n ∈ hexDigits) := by
  decide +kernel

theorem CharClass.hexDigit_contains_iff (c : Char) :
    hexDigit.contains c = true ↔ c ∈ hexDigits := by
  by_cases hc : c.toNat < 128
  · have hascii := hexDigit_contains_ascii c.toNat hc
    rw [Char.ofNat_toNat] at hascii
    rw [hascii, decide_eq_true_eq]
  · -- beyond ASCII nothing is in a class, and no digit is there either
    have hnone : Symbol.ascii? c = none := dif_neg hc
    rw [not_contains_of_ascii? hnone]
    exact iff_of_false Bool.false_ne_true fun hmem => hc (hexDigits_ascii c hmem).1

theorem Text.exists_eq_ofList (s : Text) : ∃ cs, s = .ofList cs := ⟨s.chars, ext rfl⟩

namespace Colour

/-- The two digits of a byte, the upper half first. -/
def byteDigits (upper upper' : Bool) (b : UInt8) : List Char :=
  [hexDigit upper (b.toNat / 16), hexDigit upper' (b.toNat % 16)]

/-- A colour as it is written, with a letter case for each of its six digits. -/
def write (upper : Nat → Bool) (c : Colour) : List Char :=
  '#' :: (byteDigits (upper 0) (upper 1) c.red ++ byteDigits (upper 2) (upper 3) c.green ++
    byteDigits (upper 4) (upper 5) c.blue)

/-- Three bytes, each with digits in cases of their own, are written in some choice of cases. -/
theorem exists_write (u₀ u₁ u₂ u₃ u₄ u₅ : Bool) (c : Colour) :
    ∃ upper, '#' :: (byteDigits u₀ u₁ c.red ++ byteDigits u₂ u₃ c.green ++
      byteDigits u₄ u₅ c.blue) = write upper c :=
  ⟨fun i => [u₀, u₁, u₂, u₃, u₄, u₅].getD i false, rfl⟩

/-- How many pairs of hexadecimal digits the characters begin with. -/
def hexPairs : List Char → Nat
  | a :: b :: cs => if a ∈ hexDigits ∧ b ∈ hexDigits then hexPairs cs + 1 else 0
  | _ => 0

/-! ## One byte -/

theorem mem_byteDigits (upper upper' : Bool) (b : UInt8) :
    hexDigit upper (b.toNat / 16) ∈ hexDigits ∧ hexDigit upper' (b.toNat % 16) ∈ hexDigits := by
  have hb := b.toNat_lt
  exact ⟨hexDigit_mem _ _ (by omega), hexDigit_mem _ _ (by omega)⟩

theorem hexPairs_byteDigits (upper upper' : Bool) (b : UInt8) (cs : List Char) :
    hexPairs (byteDigits upper upper' b ++ cs) = hexPairs cs + 1 :=
  if_pos (mem_byteDigits upper upper' b)

/-- Two digits are the digits of a byte. -/
theorem exists_byteDigits {a b : Char} (ha : a ∈ hexDigits) (hb : b ∈ hexDigits) :
    ∃ upper upper' v, [a, b] = byteDigits upper upper' v := by
  obtain ⟨upper, m, rfl⟩ := exists_eq_hexDigit a ha
  obtain ⟨upper', n, rfl⟩ := exists_eq_hexDigit b hb
  have hv : (16 * m.val + n.val).toUInt8.toNat = 16 * m.val + n.val := by
    rw [Nat.toUInt8_eq, UInt8.toNat_ofNat']
    omega
  have hupper : (16 * m.val + n.val) / 16 = m.val := by omega
  have hlower : (16 * m.val + n.val) % 16 = n.val := by omega
  exact ⟨upper, upper', (16 * m.val + n.val).toUInt8, by rw [byteDigits, hv, hupper, hlower]⟩

/-- Two digits always denote a byte. -/
theorem readIn_byteDigits (upper upper' : Bool) (b : UInt8) :
    (IntegerType.nat 8).readIn 16 (byteDigits upper upper' b) = .ok b.toNat := by
  have hb := b.toNat_lt
  obtain ⟨hmem, -⟩ := mem_byteDigits upper upper' b
  have hupper := digitIn?_hexDigit upper (b.toNat / 16) (by omega)
  have hlower := digitIn?_hexDigit upper' (b.toNat % 16) (by omega)
  have hlargest : (IntegerType.nat 8).largest = 255 := by decide
  unfold byteDigits
  generalize hexDigit upper (b.toNat / 16) = c at *
  generalize hexDigit upper' (b.toNat % 16) = d at *
  have hsign := hexDigits_noSign c hmem
  have hread : (IntegerType.nat 8).readIn 16 [c, d] =
      (IntegerType.nat 8).readDigits 16 false 0 [c, d] := by
    unfold IntegerType.readIn
    split <;> simp_all
  rw [hread]
  simp only [IntegerType.readDigits, hupper, hlower, hlargest, Bool.false_eq_true, if_false]
  rw [if_neg (by omega), if_neg (by omega)]
  have hvalue : (0 * ((16 : Nat) : Int) + (b.toNat / 16 : Nat)) * ((16 : Nat) : Int) +
      (b.toNat % 16 : Nat) = b.toNat := by omega
  rw [hvalue]

theorem readByte_eq {digits : Span Text} {upper upper' : Bool} {b : UInt8}
    (h : digits.toList = byteDigits upper upper' b) : readByte digits = .ok b := by
  unfold readByte
  rw [h, readIn_byteDigits]
  simp

/-- The span of two digits, wherever it lies, is the text of these digits. -/
theorem digits_shows (a b : Char) (cs : List Char) :
    (⟨.ofList (a :: b :: cs), .ofList cs⟩ : Span Text).Shows Text.ofList [a, b] :=
  Text.cuts.confine_shows [a, b] cs

theorem takeRun_two {a b : Char} (ha : a ∈ hexDigits) (hb : b ∈ hexDigits) (cs : List Char) :
    Parser.takeRun CharClass.hexDigit.contains 2 (Text.ofList (a :: b :: cs)) =
      (2, .ofList cs) := by
  have ha' := (CharClass.hexDigit_contains_iff a).2 ha
  have hb' := (CharClass.hexDigit_contains_iff b).2 hb
  simp [Parser.takeRun, Text.storage.next?_cons, ha', hb']

theorem takeRun_short {cs : List Char} (h : hexPairs cs = 0) :
    (Parser.takeRun CharClass.hexDigit.contains 2 (Text.ofList cs)).1 < 2 := by
  match cs with
  | [] => simp [Parser.takeRun, Text.storage.next?_nil]
  | [a] =>
      simp only [Parser.takeRun, Text.storage.next?_cons, Text.storage.next?_nil]
      split <;> simp
  | a :: b :: cs =>
      have hab : ¬ (a ∈ hexDigits ∧ b ∈ hexDigits) := by
        intro hab
        rw [hexPairs, if_pos hab] at h
        cases h
      simp only [Parser.takeRun, Text.storage.next?_cons, CharClass.hexDigit_contains_iff]
      by_cases ha : a ∈ hexDigits
      · have hb : b ∉ hexDigits := fun hb => hab ⟨ha, hb⟩
        simp [ha, hb]
      · simp [ha]

theorem takeTwo_of_byteDigits (upper upper' : Bool) (b : UInt8) (cs : List Char) :
    Parser.takeWhileBetween 2 2 CharClass.hexDigit.contains
      (Text.ofList (byteDigits upper upper' b ++ cs)) =
    .success ⟨.ofList (byteDigits upper upper' b ++ cs), .ofList cs⟩ (.ofList cs) := by
  obtain ⟨hc, hd⟩ := mem_byteDigits upper upper' b
  rw [Parser.takeWhileBetween, byteDigits, List.cons_append, List.cons_append, List.nil_append,
    takeRun_two hc hd]
  rfl

theorem takeTwo_of_no_pair {cs : List Char} (h : hexPairs cs = 0) :
    Parser.takeWhileBetween 2 2 CharClass.hexDigit.contains (Text.ofList cs) =
      .failure (.new (.ofList cs) ["TakeWhileMN"]) (.ofList cs) := by
  have hshort := takeRun_short h
  rw [Parser.takeWhileBetween]
  exact if_pos hshort

theorem byte_of_byteDigits (upper upper' : Bool) (b : UInt8) (cs : List Char) :
    byte (.ofList (byteDigits upper upper' b ++ cs)) = .success b (.ofList cs) := by
  have hread : readByte ⟨.ofList (byteDigits upper upper' b ++ cs), .ofList cs⟩ = .ok b :=
    readByte_eq (digits_shows _ _ cs).toList
  rw [byte, Parser.tryMap, takeTwo_of_byteDigits]
  dsimp only
  rw [hread]

theorem byte_of_no_pair {cs : List Char} (h : hexPairs cs = 0) :
    byte (.ofList cs) = .failure (.new (.ofList cs) ["TakeWhileMN"]) (.ofList cs) := by
  rw [byte, Parser.tryMap, takeTwo_of_no_pair h]

/-- Characters begin with the digits of a byte, or with no pair of digits. -/
theorem byteDigits_or_no_pair (cs : List Char) :
    (∃ upper upper' b ds, cs = byteDigits upper upper' b ++ ds) ∨ hexPairs cs = 0 := by
  match cs with
  | [] => exact .inr rfl
  | [a] => exact .inr rfl
  | a :: b :: cs =>
      by_cases h : a ∈ hexDigits ∧ b ∈ hexDigits
      · obtain ⟨upper, upper', v, hv⟩ := exists_byteDigits h.1 h.2
        exact .inl ⟨upper, upper', v, cs, by rw [← hv]; rfl⟩
      · exact .inr (if_neg h)

/-- Whatever span of two digits is taken, it can be cut out of its text, and denotes a byte. -/
theorem takeTwo_readable {t r : Text} {u : Span Text}
    (h : Parser.takeWhileBetween 2 2 CharClass.hexDigit.contains t = .success u r) :
    u.block? = some u.toList ∧ ∃ b, readByte u = .ok b := by
  obtain ⟨cs, rfl⟩ := Text.exists_eq_ofList t
  rcases byteDigits_or_no_pair cs with ⟨upper, upper', b, ds, rfl⟩ | hnone
  · cases (takeTwo_of_byteDigits upper upper' b ds).symm.trans h
    have hshows := digits_shows (hexDigit upper (b.toNat / 16)) (hexDigit upper' (b.toNat % 16)) ds
    exact ⟨hshows.block?.trans (congrArg some hshows.toList.symm), b, readByte_eq hshows.toList⟩
  · cases (takeTwo_of_no_pair hnone).symm.trans h

theorem utf8Length_byteDigits (upper upper' : Bool) (b : UInt8) :
    utf8Length (byteDigits upper upper' b) = 2 := by
  obtain ⟨hc, hd⟩ := mem_byteDigits upper upper' b
  simp only [byteDigits, utf8Length, (hexDigits_ascii _ hc).2, (hexDigits_ascii _ hd).2]

/-! ## Three bytes -/

/-- The bytes that fail to be read are those behind all pairs of digits. -/
theorem failsInTurn_bytes {n : Nat} {cs : List Char} {e : ParseError Text}
    (h : FailsInTurn (List.replicate n byte) (.ofList cs) e) :
    hexPairs cs < n ∧ e.isFatal = false ∧
      utf8Length cs = 2 * hexPairs cs + Cursor.length e.position := by
  induction n generalizing cs with
  | zero => cases h
  | succ n ih =>
      rw [List.replicate_succ] at h
      rcases byteDigits_or_no_pair cs with ⟨upper, upper', b, ds, rfl⟩ | hnone
      · have hbyte := byte_of_byteDigits upper upper' b ds
        cases h with
        | here hfail => cases hbyte.symm.trans hfail
        | behind hok hrest =>
            cases hbyte.symm.trans hok
            obtain ⟨hlt, hfatal, hlen⟩ := ih hrest
            rw [hexPairs_byteDigits, utf8Length_append, utf8Length_byteDigits]
            exact ⟨by omega, hfatal, by omega⟩
      · have hbyte := byte_of_no_pair hnone
        cases h with
        | behind hok _ => cases hbyte.symm.trans hok
        | here hfail =>
            cases hbyte.symm.trans hfail
            rw [hnone]
            exact ⟨Nat.succ_pos n, rfl, (Nat.zero_add _).symm⟩

/-- A byte that is read in turn is written in front of the others. -/
theorem inTurn_byte_cons {n : Nat} {cs : List Char} {bs : List UInt8} {r : Text}
    (h : InTurn (List.replicate (n + 1) byte) (.ofList cs) bs r) :
    ∃ upper upper' b bs' ds, cs = byteDigits upper upper' b ++ ds ∧ bs = b :: bs' ∧
      InTurn (List.replicate n byte) (.ofList ds) bs' r := by
  rw [List.replicate_succ] at h
  cases h with
  | cons hok hrest =>
      rcases byteDigits_or_no_pair cs with ⟨upper, upper', v, ds, rfl⟩ | hnone
      · cases (byte_of_byteDigits upper upper' v ds).symm.trans hok
        exact ⟨upper, upper', _, _, ds, rfl, rfl, hrest⟩
      · cases (byte_of_no_pair hnone).symm.trans hok

theorem inTurn_three_bytes {cs : List Char} {bs : List UInt8} {r : Text}
    (h : InTurn (List.replicate 3 byte) (.ofList cs) bs r) :
    ∃ c upper ds, '#' :: cs = write upper c ++ ds ∧ bs = [c.red, c.green, c.blue] ∧
      r = .ofList ds := by
  obtain ⟨u₀, u₁, x, _, _, rfl, rfl, h₁⟩ := inTurn_byte_cons h
  obtain ⟨u₂, u₃, y, _, _, rfl, rfl, h₂⟩ := inTurn_byte_cons h₁
  obtain ⟨u₄, u₅, z, _, ds, rfl, rfl, h₃⟩ := inTurn_byte_cons h₂
  cases h₃
  obtain ⟨upper, hupper⟩ := exists_write u₀ u₁ u₂ u₃ u₄ u₅ ⟨x, y, z⟩
  exact ⟨⟨x, y, z⟩, upper, ds, by rw [← hupper]; rfl, rfl, rfl⟩

theorem inTurn_write (upper : Nat → Bool) (c : Colour) (ds : List Char) :
    InTurn (List.replicate 3 byte) (.ofList ((write upper c).tail ++ ds))
      [c.red, c.green, c.blue] (.ofList ds) :=
  .cons (byte_of_byteDigits (upper 0) (upper 1) c.red _)
    (.cons (byte_of_byteDigits (upper 2) (upper 3) c.green _)
      (.cons (byte_of_byteDigits (upper 4) (upper 5) c.blue ds) (.nil _)))

/-! ## Colours -/

/-- Where characters cease to be the notation of a colour, counted in bytes. -/
def faultOffset : List Char → Nat
  | '#' :: cs => 1 + 2 * min 3 (hexPairs cs)
  | _ => 0

theorem faultOffset_of_no_hash {cs : List Char} (h : ∀ ds, cs ≠ '#' :: ds) :
    faultOffset cs = 0 := by
  unfold faultOffset
  split
  · exact absurd rfl (h _)
  · rfl

theorem parse_of_hash (cs : List Char) :
    parse (.ofList ('#' :: cs)) =
      match Parser.times byte 3 (.ofList cs) with
      | .success bs r =>
        if Cursor.isEmpty r then .success (ofBytes bs) r
        else .failure (Diagnostic.expectedEnd r) (.ofList ('#' :: cs))
      | .failure e _ => .failure e (.ofList ('#' :: cs)) := by
  have hhash : Parser.char '#' (Text.ofList ('#' :: cs)) =
      (.success '#' (.ofList cs) : Outcome Text (ParseError Text) Char) := by
    rw [Parser.char, Parser.symbolWhere, Text.storage.next?_cons]
    rfl
  rw [parse, Parser.complete, Parser.map, Parser.seqRight, hhash]
  dsimp only
  cases Parser.times byte 3 (Text.ofList cs) <;> rfl

theorem parse_of_no_hash {cs : List Char} (h : ∀ ds, cs ≠ '#' :: ds) :
    ∃ d, parse (.ofList cs) = .failure (.new (.ofList cs) [d]) (.ofList cs) := by
  have hhash : ∃ d, Parser.char '#' (Text.ofList cs) =
      (.failure (.new (.ofList cs) [d]) (.ofList cs) : Outcome Text (ParseError Text) Char) := by
    rw [Parser.char, Parser.symbolWhere]
    cases cs with
    | nil =>
        rw [Text.storage.next?_nil]
        exact ⟨_, rfl⟩
    | cons c cs =>
        have hc : c ≠ '#' := fun hc => h cs (by rw [hc])
        have hother : Symbol.same c '#' = false := beq_false_of_ne hc
        rw [Text.storage.next?_cons]
        dsimp only
        rw [hother]
        exact ⟨_, rfl⟩
  obtain ⟨d, hd⟩ := hhash
  refine ⟨d, ?_⟩
  rw [parse, Parser.complete, Parser.map, Parser.seqRight, hd]
  rfl

theorem hexPairs_write (upper : Nat → Bool) (c : Colour) (ds : List Char) :
    hexPairs ((write upper c).tail ++ ds) = hexPairs ds + 3 := by
  simp only [write, List.tail_cons, List.append_assoc, hexPairs_byteDigits]

theorem utf8Length_write (upper : Nat → Bool) (c : Colour) :
    utf8Length (write upper c).tail = 6 := by
  simp only [write, List.tail_cons, utf8Length_append, utf8Length_byteDigits]

theorem isEmpty_ofList_iff (cs : List Char) :
    Cursor.isEmpty (Text.ofList cs) = true ↔ cs = [] := by
  rw [Cursor.isEmpty_iff, ← Cursor.toList_eq_nil_iff, Text.toList_eq]
  rfl

theorem times_byte {cs : List Char} (h : cs ≠ []) :
    Parser.times byte 3 (.ofList cs) =
      .ofExcept (.ofList cs) (Parser.collect (List.replicate 3 byte) (.ofList cs)) := by
  have hsome : Cursor.isEmpty (Text.ofList cs) = false :=
    Bool.eq_false_iff.2 (mt (isEmpty_ofList_iff cs).1 h)
  rw [Parser.times, hsome, Parser.replicate_eq_collect]
  rfl

/-- Three bytes are read, or the error is behind the pairs of digits, of which there are fewer. -/
theorem times_byte_cases (cs : List Char) :
    (∃ c upper ds, '#' :: cs = write upper c ++ ds ∧
      Parser.times byte 3 (.ofList cs) = .success [c.red, c.green, c.blue] (.ofList ds)) ∨
    (hexPairs cs < 3 ∧ ∃ e, Parser.times byte 3 (.ofList cs) = .failure e (.ofList cs) ∧
      e.isFatal = false ∧ utf8Length cs = 2 * hexPairs cs + Cursor.length e.position) := by
  by_cases hempty : cs = []
  · subst hempty
    exact .inr ⟨Nat.succ_pos 2, .new (.ofList []) ["Count"], rfl, rfl, rfl⟩
  · rw [times_byte hempty]
    cases hrun : Parser.collect (List.replicate 3 byte) (Text.ofList cs) with
    | ok x =>
        obtain ⟨bs, r⟩ := x
        obtain ⟨c, upper, ds, hcs, rfl, rfl⟩ := inTurn_three_bytes (Parser.collect_eq_ok_iff.1 hrun)
        exact .inl ⟨c, upper, ds, hcs, rfl⟩
    | error e =>
        obtain ⟨hlt, hfatal, hlen⟩ := failsInTurn_bytes (Parser.collect_eq_error_iff.1 hrun)
        exact .inr ⟨hlt, e, rfl, hfatal, hlen⟩

theorem length_of_times_byte {t r : Text} {bs : List UInt8}
    (h : Parser.times byte 3 t = .success bs r) : bs.length = 3 := by
  obtain ⟨cs, rfl⟩ := Text.exists_eq_ofList t
  rcases times_byte_cases cs with ⟨c, upper, ds, -, htimes⟩ | ⟨-, e, htimes, -⟩
  · cases h.symm.trans htimes
    rfl
  · cases h.symm.trans htimes

theorem parse_write (upper : Nat → Bool) (c : Colour) :
    parse (.ofList (write upper c)) = .success c (.ofList []) := by
  have hturn := inTurn_write upper c []
  rw [List.append_nil] at hturn
  have htimes : Parser.times byte 3 (Text.ofList (write upper c).tail) =
      .success [c.red, c.green, c.blue] (.ofList []) := by
    have hsome : (write upper c).tail ≠ [] := List.cons_ne_nil _ _
    rw [times_byte hsome, Parser.collect_eq_ok_iff.2 hturn]
    rfl
  show parse (.ofList ('#' :: (write upper c).tail)) = _
  rw [parse_of_hash, htimes]
  rfl

theorem offset_behind_hash {cs : List Char} {e : ParseError Text} {n : Nat}
    (h : utf8Length cs = n + Cursor.length e.position) :
    e.offset (.ofList ('#' :: cs)) = 1 + n := by
  have hlen : Cursor.length (Text.ofList ('#' :: cs)) = 1 + utf8Length cs := rfl
  rw [ParseError.offset, hlen, h]
  omega

/-- A colour is read from its notation, and everything else is a recoverable failure. -/
theorem parse_cases (cs : List Char) :
    (∃ c upper, cs = write upper c ∧ parse (.ofList cs) = .success c (.ofList [])) ∨
    ∃ e, parse (.ofList cs) = .failure e (.ofList cs) ∧ e.isFatal = false ∧
      e.offset (.ofList cs) = faultOffset cs := by
  by_cases hhash : ∃ ds, cs = '#' :: ds
  · obtain ⟨cs, rfl⟩ := hhash
    rcases times_byte_cases cs with ⟨c, upper, ds, hcs, htimes⟩ | ⟨hlt, e, htimes, hfatal, hlen⟩
    · rw [parse_of_hash, htimes]
      dsimp only
      by_cases hds : ds = []
      · rw [if_pos ((isEmpty_ofList_iff ds).2 hds)]
        subst hds
        rw [List.append_nil] at hcs
        exact .inl ⟨c, upper, hcs, rfl⟩
      · -- all three bytes are there, and something follows
        have htail : cs = (write upper c).tail ++ ds := congrArg List.tail hcs
        have hlen : utf8Length cs = 6 + utf8Length ds := by
          rw [htail, utf8Length_append, utf8Length_write]
        have hpairs : min 3 (hexPairs cs) = 3 := by
          rw [htail, hexPairs_write]
          omega
        rw [if_neg (mt (isEmpty_ofList_iff ds).1 hds)]
        refine .inr ⟨_, rfl, rfl, ?_⟩
        rw [offset_behind_hash hlen, faultOffset, hpairs]
    · rw [parse_of_hash, htimes]
      refine .inr ⟨e, rfl, hfatal, ?_⟩
      rw [offset_behind_hash hlen, faultOffset, Nat.min_eq_right (Nat.le_of_lt hlt)]
  · have hno : ∀ ds, cs ≠ '#' :: ds := fun ds h => hhash ⟨ds, h⟩
    obtain ⟨d, hd⟩ := parse_of_no_hash hno
    refine .inr ⟨_, hd, rfl, ?_⟩
    rw [faultOffset_of_no_hash hno]
    exact Nat.sub_self _

/-- What is written in the notation is `#` and six digits. -/
theorem exists_write_iff (cs : List Char) :
    (∃ c upper, cs = write upper c) ↔
      ∃ ds, cs = '#' :: ds ∧ ds.length = 6 ∧ ∀ d ∈ ds, d ∈ hexDigits := by
  constructor
  · rintro ⟨c, upper, rfl⟩
    refine ⟨_, rfl, rfl, ?_⟩
    have hred := mem_byteDigits (upper 0) (upper 1) c.red
    have hgreen := mem_byteDigits (upper 2) (upper 3) c.green
    have hblue := mem_byteDigits (upper 4) (upper 5) c.blue
    simp only [byteDigits, List.cons_append, List.nil_append, List.forall_mem_cons]
    exact ⟨hred.1, hred.2, hgreen.1, hgreen.2, hblue.1, hblue.2, List.forall_mem_nil _⟩
  · rintro ⟨ds, rfl, hlen, hds⟩
    match ds, hlen with
    | [a, b, c, d, e, f], _ =>
        simp only [List.forall_mem_cons] at hds
        obtain ⟨ha, hb, hc, hd, he, hf, -⟩ := hds
        obtain ⟨u₀, u₁, x, hx⟩ := exists_byteDigits ha hb
        obtain ⟨u₂, u₃, y, hy⟩ := exists_byteDigits hc hd
        obtain ⟨u₄, u₅, z, hz⟩ := exists_byteDigits he hf
        obtain ⟨upper, hupper⟩ := exists_write u₀ u₁ u₂ u₃ u₄ u₅ ⟨x, y, z⟩
        refine ⟨⟨x, y, z⟩, upper, ?_⟩
        rw [← hupper, ← hx, ← hy, ← hz]
        rfl

/-- **The parser of colours reads their notation.**  It succeeds with a colour, and leaves nothing,
exactly on what is written for that colour in some letter case of its digits; these are the texts
of `#` and six hexadecimal digits.  Everything else is a recoverable failure at the whole input,
which points at the start if there is no `#`, and otherwise behind the pairs of digits that follow
it, of which three are looked at.  On the way every span that is taken can be cut out of its text
and denotes a byte, and there are three bytes for the three parts. -/
theorem parse_reads_notation (s : Text) :
    (∀ c r, parse s = .success c r ↔ r = .ofList [] ∧ ∃ upper, s.chars = write upper c) ∧
    ((∃ c r, parse s = .success c r) ↔
      ∃ ds, s.chars = '#' :: ds ∧ ds.length = 6 ∧ ∀ d ∈ ds, d ∈ hexDigits) ∧
    ((¬ ∃ c r, parse s = .success c r) →
      ∃ e, parse s = .failure e s ∧ e.isFatal = false ∧ e.offset s = faultOffset s.chars) ∧
    (∀ t u r, Parser.takeWhileBetween 2 2 CharClass.hexDigit.contains t = .success u r →
      u.block? = some u.toList ∧ ∃ b, readByte u = .ok b) ∧
    ∀ t bs r, Parser.times byte 3 t = .success bs r → bs.length = 3 := by
  obtain ⟨cs, rfl⟩ := Text.exists_eq_ofList s
  have hchars : (Text.ofList cs).chars = cs := rfl
  rw [hchars]
  have hsuccess : ∀ c r, parse (.ofList cs) = .success c r ↔
      r = .ofList [] ∧ ∃ upper, cs = write upper c := by
    intro c r
    constructor
    · intro h
      rcases parse_cases cs with ⟨c', upper, hwrite, hparse⟩ | ⟨e, hparse, -, -⟩
      · cases h.symm.trans hparse
        exact ⟨rfl, upper, hwrite⟩
      · cases h.symm.trans hparse
    · rintro ⟨rfl, upper, rfl⟩
      exact parse_write upper c
  refine ⟨hsuccess, ?_, fun hno => ?_, fun t u r => takeTwo_readable, fun t bs r => ?_⟩
  · rw [← exists_write_iff]
    constructor
    · rintro ⟨c, r, h⟩
      exact ⟨c, ((hsuccess c r).1 h).2⟩
    · rintro ⟨c, upper, hwrite⟩
      exact ⟨c, .ofList [], (hsuccess c _).2 ⟨rfl, upper, hwrite⟩⟩
  · rcases parse_cases cs with ⟨c, upper, -, hparse⟩ | herror
    · exact absurd ⟨c, _, hparse⟩ hno
    · exact herror
  · exact length_of_times_byte

/-- `#2f14DF` in mixed case, and a text with one pair of digits, half of another and an `é`. -/
theorem parse_reads_notation_mixed :
    parse (.ofString "#2f14DF") = .success ⟨47, 20, 223⟩ (.ofList []) ∧
    (¬ ∃ c r, parse (.ofString "#2f1é") = .success c r) ∧
    ∃ e, parse (.ofString "#2f1é") = .failure e (.ofString "#2f1é") ∧ e.isFatal = false ∧
      e.offset (.ofString "#2f1é") = 3 := by
  obtain ⟨hmixed, -⟩ := parse_reads_notation (.ofString "#2f14DF")
  obtain ⟨-, hdigits, hfails, -⟩ := parse_reads_notation (.ofString "#2f1é")
  have hno : ¬ ∃ c r, parse (.ofString "#2f1é") = .success c r := by
    rw [hdigits]
    rintro ⟨ds, hds, -, hhex⟩
    cases hds
    exact absurd (hhex 'é' (by decide)) (by decide)
  refine ⟨(hmixed _ _).2 ⟨rfl, fun i => 4 ≤ i, by decide⟩, hno, ?_⟩
  obtain ⟨e, he, hfatal, hoffset⟩ := hfails hno
  exact ⟨e, he, hfatal, hoffset.trans (by decide)⟩

end Colour

end ParserAlgebra
