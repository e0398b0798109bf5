import ParserAlgebra.Cursor.Basic

/-!
# Text input

A text is a list of characters whose length is the number of bytes of its UTF-8 form.  The length
is kept beside the characters, so asking for it costs nothing.

* `Text.next?_eq_none_iff` and `Text.length_lt_of_next?` — the cursor laws.
* `Text.cut?` — the first `n` bytes, refused when the cut falls inside a character.
-/

set_option autoImplicit false

namespace ParserAlgebra

/-- How many bytes the UTF-8 form of the characters has. -/
def utf8Length : List Char → Nat
  | [] => 0
  | c :: cs => c.utf8Size + utf8Length cs

theorem utf8Length_append (cs ds : List Char) :
    utf8Length (cs ++ ds) = utf8Length cs + utf8Length ds := by
  induction cs with
  | nil => simp [utf8Length]
  | cons c cs ih => simp [utf8Length, ih, Nat.add_assoc]

/-- A text, with its length in bytes. -/
structure Text where
  chars : List Char
  size : Nat
  size_eq : size = utf8Length chars

namespace Text

theorem ext {s t : Text} (h : s.chars = t.chars) : s = t := by
  obtain ⟨cs, n, hn⟩ := s
  obtain ⟨ds, m, hm⟩ := t
  cases h
  cases hn
  cases hm
  rfl

def ofList (cs : List Char) : Text := ⟨cs, utf8Length cs, rfl⟩

def ofString (s : String) : Text := ofList s.toList

instance : Inhabited Text := ⟨ofList []⟩

/-- Texts are compared by their characters. -/
instance : BEq Text := ⟨fun s t => s.size == t.size && s.chars == t.chars⟩

def next? : Text → Option (Char × Text)
  | ⟨[], _, _⟩ => none
  | ⟨c :: cs, n, h⟩ => some (c, ⟨cs, n - c.utf8Size, by rw [h, utf8Length]; omega⟩)

theorem next?_eq_none_iff (s : Text) : s.next? = none ↔ s.size = 0 := by
  obtain ⟨cs, n, h⟩ := s
  cases cs with
  | nil => simp [next?, h, utf8Length]
  | cons c cs =>
      have := c.utf8Size_pos
      simp only [next?, h, utf8Length]
      constructor
      · intro h'
        cases h'
      · omega

theorem size_of_next? {s t : Text} {c : Char} (h : s.next? = some (c, t)) :
    s.size = c.utf8Size + t.size := by
  obtain ⟨cs, n, hn⟩ := s
  cases cs with
  | nil => simp [next?] at h
  | cons d ds =>
      simp only [next?, Option.some.injEq, Prod.mk.injEq] at h
      obtain ⟨rfl, rfl⟩ := h
      simp [hn, utf8Length]

theorem length_lt_of_next? {s t : Text} {c : Char} (h : s.next? = some (c, t)) :
    t.size < s.size := by
  have := size_of_next? h
  have := c.utf8Size_pos
  omega

instance : Cursor Text Char where
  next? := next?
  length := size
  ahead := size
  next?_eq_none_iff := next?_eq_none_iff
  length_lt_of_next? := length_lt_of_next?

theorem toList_eq (s : Text) : Cursor.toList s = s.chars := by
  obtain ⟨cs, n, h⟩ := s
  induction cs generalizing n with
  | nil => exact Cursor.toList_of_none rfl
  | cons c cs ih => rw [Cursor.toList_of_some (x := c) rfl, ih]

/-- The first `n` bytes of the characters, if the cut is at the border of a character. -/
def cutList? : Nat → List Char → Option (List Char)
  | 0, _ => some []
  | _ + 1, [] => none
  | n + 1, c :: cs =>
    if c.utf8Size ≤ n + 1 then (cutList? (n + 1 - c.utf8Size) cs).map (c :: ·) else none

/-- The first `n` bytes of a text, if the cut is at the border of a character. -/
def cut? (n : Nat) (s : Text) : Option (List Char) := cutList? n s.chars

/-- What is left of the characters behind the first `n` bytes and, if these end inside a character,
behind that character. -/
def dropList : Nat → List Char → List Char
  | 0, cs => cs
  | _ + 1, [] => []
  | n + 1, c :: cs => dropList (n + 1 - c.utf8Size) cs

/-- The text behind the first `n` bytes. -/
def drop (n : Nat) (s : Text) : Text := ofList (dropList n s.chars)

end Text

end ParserAlgebra
