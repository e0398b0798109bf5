import ParserAlgebra.Cursor.Basic

/-!
# Slices as input

A slice is a list of symbols whose length is their number.  It can skip any number of symbols in
one step.

* `Slice.advance_eq` — skipping in one step ends where skipping one by one ends.
* `AsciiText` — a text of ASCII characters is stored as a slice of them, and read one by one.
-/

set_option autoImplicit false

namespace ParserAlgebra

/-- A run of symbols, with their number. -/
structure Slice (σ : Type) where
  items : List σ
  size : Nat
  size_eq : size = items.length

namespace Slice

variable {σ : Type}

theorem ext {s t : Slice σ} (h : s.items = t.items) : s = t := by
  obtain ⟨xs, n, hn⟩ := s
  obtain ⟨ys, m, hm⟩ := t
  cases h
  cases hn
  cases hm
  rfl

def ofList (xs : List σ) : Slice σ := ⟨xs, xs.length, rfl⟩

instance : Inhabited (Slice σ) := ⟨ofList []⟩

/-- Slices are compared by their symbols. -/
instance [BEq σ] : BEq (Slice σ) := ⟨fun s t => s.size == t.size && s.items == t.items⟩

def next? : Slice σ → Option (σ × Slice σ)
  | ⟨[], _, _⟩ => none
  | ⟨x :: xs, n, h⟩ => some (x, ⟨xs, n - 1, by simp [h]⟩)

theorem next?_eq_none_iff (s : Slice σ) : s.next? = none ↔ s.size = 0 := by
  obtain ⟨xs, n, h⟩ := s
  cases xs with
  | nil => simp [next?, h]
  | cons x xs => simp [next?, h]

theorem size_of_next? {s t : Slice σ} {x : σ} (h : s.next? = some (x, t)) :
    s.size = t.size + 1 := by
  obtain ⟨xs, n, hn⟩ := s
  cases xs with
  | nil => simp [next?] at h
  | cons y ys =>
      simp only [next?, Option.some.injEq, Prod.mk.injEq] at h
      obtain ⟨rfl, rfl⟩ := h
      simp [hn]

/-- Skips `n` symbols, or all of them if there are fewer, in one step. -/
def advance (n : Nat) (s : Slice σ) : Nat × Slice σ :=
  let k := min n s.size
  (k, ⟨s.items.drop k, s.size - k, by simp [s.size_eq]⟩)

theorem advance_eq (n : Nat) (s : Slice σ) : s.advance n = advanceByNext next? n s := by
  induction n generalizing s with
  | zero =>
      simp only [advance, advanceByNext, Nat.zero_min, Prod.mk.injEq, true_and]
      exact ext rfl
  | succ n ih =>
      obtain ⟨xs, k, h⟩ := s
      cases xs with
      | nil =>
          subst h
          simp [advance, advanceByNext, next?]
      | cons x xs =>
          subst h
          simp only [advanceByNext, next?, ← ih, advance, List.length_cons]
          simp only [Nat.add_sub_cancel, Nat.add_min_add_right, Prod.mk.injEq, true_and]
          exact ext rfl

instance : Cursor (Slice σ) σ where
  next? := next?
  length := size
  ahead := size
  advance := advance
  next?_eq_none_iff := next?_eq_none_iff
  length_lt_of_next? h := by
    have := size_of_next? h
    omega
  advance_eq := advance_eq

theorem toList_eq (s : Slice σ) : Cursor.toList s = s.items := by
  obtain ⟨xs, n, h⟩ := s
  induction xs generalizing n with
  | nil => exact Cursor.toList_of_none rfl
  | cons x xs ih => rw [Cursor.toList_of_some (x := x) rfl, ih]

/-- The first `n` symbols, if there are so many. -/
def cut? (n : Nat) (s : Slice σ) : Option (List σ) :=
  if n ≤ s.size then some (s.items.take n) else none

end Slice

/-- The bytes of a text whose characters are all below 256. -/
def latin1 (s : String) : Slice UInt8 := Slice.ofList (s.toList.map fun c => c.toNat.toUInt8)

/-- A text of ASCII characters, one storage unit each.  It is stored as a slice of them, but it has no
way of its own to skip several at once. -/
structure AsciiText where
  slice : Slice Ascii

namespace AsciiText

def ofList (xs : List Ascii) : AsciiText := ⟨.ofList xs⟩

/-- The ASCII characters of a text. -/
def ofString (s : String) : AsciiText := ofList (s.toList.filterMap Ascii.ofChar?)

instance : Inhabited AsciiText := ⟨ofList []⟩

/-- Texts of ASCII characters are compared by these. -/
instance : BEq AsciiText := ⟨fun s t => s.slice == t.slice⟩

def next? (s : AsciiText) : Option (Ascii × AsciiText) :=
  s.slice.next?.map fun p => (p.1, ⟨p.2⟩)

theorem next?_eq_none_iff (s : AsciiText) : s.next? = none ↔ s.slice.size = 0 := by
  rw [next?, Option.map_eq_none_iff, Slice.next?_eq_none_iff]

theorem next?_slice_of_next? {s t : AsciiText} {x : Ascii} (h : s.next? = some (x, t)) :
    s.slice.next? = some (x, t.slice) := by
  obtain ⟨p, hp, h⟩ := Option.map_eq_some_iff.1 h
  cases h
  exact hp

theorem size_lt_of_next? {s t : AsciiText} {x : Ascii} (h : s.next? = some (x, t)) :
    t.slice.size < s.slice.size := by
  have := Slice.size_of_next? (next?_slice_of_next? h)
  omega

instance : Cursor AsciiText Ascii where
  next? := next?
  length s := s.slice.size
  ahead s := s.slice.size
  next?_eq_none_iff := next?_eq_none_iff
  length_lt_of_next? := size_lt_of_next?

theorem toList_eq (s : AsciiText) : Cursor.toList s = s.slice.items := by
  obtain ⟨xs, n, h⟩ := s
  induction xs generalizing n with
  | nil => exact Cursor.toList_of_none rfl
  | cons x xs ih => rw [Cursor.toList_of_some (x := x) rfl, ih]

end AsciiText

end ParserAlgebra
