/-
KDown/JsonText.lean

Compact JSON text and its length in bytes.

A value is written without blanks: strings between quotes with the short
escapes where JSON has them and `\u00xx` for the other control characters,
numbers in decimal, arrays and objects with commas between their items.  The
length lemmas count bytes of UTF-8, which is what a file holds.

An escape is never longer than six bytes for each byte of the character
(`size_escapeChar_le`); `spareBytes` is what a string leaves unused of that
allowance.
-/
import Mathlib.Algebra.BigOperators.Group.List.Basic
import Mathlib.Algebra.Order.Ring.Nat
import Mathlib.Data.String.Basic
import Mathlib.Tactic.Common

namespace KDown

namespace JsonText

/-- Length in bytes of UTF-8. -/
def size (l : List Char) : ℕ := String.utf8Len l

@[simp] theorem size_nil : size [] = 0 := rfl

@[simp] theorem size_cons (c : Char) (l : List Char) : size (c :: l) = size l + c.utf8Size := rfl

@[simp] theorem size_append (l l' : List Char) : size (l ++ l') = size l + size l' :=
  String.utf8Len_append l l'

theorem size_toList (s : String) : size s.toList = s.utf8ByteSize := String.utf8Len_toList s

/-! ### Strings -/

/-- A hexadecimal digit, in lower case. -/
def hexDigit (n : ℕ) : Char := (Nat.toDigits 16 n).headD '0'

/-- One character inside a string. -/
def escapeChar (c : Char) : List Char :=
  if c = '"' then ['\\', '"']
  else if c = '\\' then ['\\', '\\']
  else if c = '\x08' then ['\\', 'b']
  else if c = '\t' then ['\\', 't']
  else if c = '\n' then ['\\', 'n']
  else if c = '\x0c' then ['\\', 'f']
  else if c = '\r' then ['\\', 'r']
  -- the other control characters have no short form
  else if c.toNat < 32 then
    ['\\', 'u', '0', '0', hexDigit (c.toNat / 16), hexDigit (c.toNat % 16)]
  else [c]

/-- A string in its quotation marks. -/
def text (s : String) : List Char := '"' :: (s.toList.flatMap escapeChar ++ ['"'])

theorem utf8Size_hexDigit : ∀ n < 16, (hexDigit n).utf8Size = 1 := by decide

/-- An escape of at most six bytes. -/
theorem size_le_of_short {l : List Char} (h : size l ≤ 6) (c : Char) :
    size l ≤ 6 * c.utf8Size :=
  h.trans (Nat.le_mul_of_pos_right 6 c.utf8Size_pos)

theorem size_ite_le {p : Prop} [Decidable p] {l l' : List Char} {n : ℕ} (h : size l ≤ n)
    (h' : size l' ≤ n) : size (if p then l else l') ≤ n := by
  split_ifs
  · exact h
  · exact h'

/-- **A character takes at most six bytes** for each of its own when it is
escaped. -/
theorem size_escapeChar_le (c : Char) : size (escapeChar c) ≤ 6 * c.utf8Size := by
  rw [escapeChar]
  -- the seven short escapes
  iterate 7 apply size_ite_le (size_le_of_short (by decide) c)
  split_ifs with hctrl
  · have hhigh := utf8Size_hexDigit (c.toNat / 16) (by omega)
    have hlow := utf8Size_hexDigit (c.toNat % 16) (by omega)
    have hfour : size ['\\', 'u', '0', '0'] = 4 := by decide
    apply size_le_of_short
    show size (['\\', 'u', '0', '0'] ++ [hexDigit (c.toNat / 16), hexDigit (c.toNat % 16)]) ≤ 6
    rw [size_append, hfour, size_cons, size_cons, size_nil, hhigh, hlow]
  · show 0 + c.utf8Size ≤ 6 * c.utf8Size
    omega

/-- What the characters leave of six bytes for each of their bytes. -/
def spareOf (l : List Char) : ℕ := (l.map fun c => 6 * c.utf8Size - size (escapeChar c)).sum

/-- What a string leaves of its worst case. -/
def spareBytes (s : String) : ℕ := spareOf s.toList

theorem size_flatMap_escapeChar (l : List Char) :
    size (l.flatMap escapeChar) + spareOf l = 6 * size l := by
  induction l with
  | nil => rfl
  | cons c l ih =>
    have hc := size_escapeChar_le c
    rw [List.flatMap_cons, size_append, size_cons, spareOf, List.map_cons, List.sum_cons]
    rw [spareOf] at ih
    omega

/-- A string takes its worst case less what it leaves unused. -/
theorem size_text (s : String) : size (text s) + spareBytes s = s.utf8ByteSize * 6 + 2 := by
  have h := size_flatMap_escapeChar s.toList
  rw [size_toList] at h
  have hquote : ('"' : Char).utf8Size = 1 := rfl
  rw [text, size_cons, size_append, size_cons, size_nil, hquote, spareBytes]
  omega

/-! ### Numbers and literals -/

/-- The missing value. -/
def null : List Char := "null".toList

/-- A truth value. -/
def bool (b : Bool) : List Char := (if b then "true" else "false").toList

/-- A number in decimal digits. -/
def number (n : ℕ) : List Char := Nat.toDigits 10 n

/-- A value that may be missing. -/
def option {α : Type*} (write : α → List Char) : Option α → List Char
  | some a => write a
  | none => null

theorem size_bool (b : Bool) : size (bool b) = if b then 4 else 5 := by
  cases b <;> rfl

theorem utf8Size_of_isDigit {c : Char} (h : c.isDigit = true) : c.utf8Size = 1 := by
  have hle : c.val ≤ 57 := by
    simp only [Char.isDigit, Bool.and_eq_true, decide_eq_true_eq] at h
    exact h.2
  exact if_pos (UInt32.le_trans hle (by decide))

theorem size_of_digits {l : List Char} (h : ∀ c ∈ l, c.isDigit = true) : size l = l.length := by
  induction l with
  | nil => rfl
  | cons c l ih =>
    rw [size_cons, ih fun x hx => h x (List.mem_cons_of_mem _ hx),
      utf8Size_of_isDigit (h c (List.mem_cons_self ..)), List.length_cons]

theorem size_number (n : ℕ) : size (number n) = (Nat.toDigits 10 n).length :=
  size_of_digits fun _ hc => Nat.isDigit_of_mem_toDigits (by decide) (by decide) hc

/-- A 64-bit number has at most twenty digits. -/
theorem size_number_le {n : ℕ} (h : n < 18446744073709551616) : size (number n) ≤ 20 := by
  rw [size_number]
  exact (Nat.length_toDigits_le_iff (by decide) (by decide)).mpr (h.trans (by decide))

/-! ### Arrays and objects -/

/-- The items with a comma between each two. -/
def commas : List (List Char) → List Char
  | [] => []
  | [item] => item
  | item :: items => item ++ ',' :: commas items

/-- An array of written values. -/
def array (items : List (List Char)) : List Char := '[' :: (commas items ++ [']'])

/-- An object of written fields. -/
def object (fields : List (String × List Char)) : List Char :=
  '\x7b' :: (commas (fields.map fun f => text f.1 ++ ':' :: f.2) ++ ['\x7d'])

/-- One comma for each item but the last. -/
theorem size_commas (items : List (List Char)) :
    size (commas items) + (if items.isEmpty then 0 else 1) =
      (items.map fun item => size item + 1).sum := by
  induction items with
  | nil => rfl
  | cons item items ih =>
    have hcomma : (',' : Char).utf8Size = 1 := rfl
    rw [List.map_cons, List.sum_cons, ← ih]
    rcases items with - | ⟨next, items⟩
    · rfl
    · simp only [commas, size_append, size_cons, hcomma, List.isEmpty_cons, Bool.false_eq_true,
        if_false]
      omega

theorem size_array (items : List (List Char)) :
    size (array items) + (if items.isEmpty then 0 else 1) =
      2 + (items.map fun item => size item + 1).sum := by
  have h := size_commas items
  have hopen : ('[' : Char).utf8Size = 1 := rfl
  have hclose : (']' : Char).utf8Size = 1 := rfl
  rw [array, size_cons, size_append, size_cons, size_nil, hopen, hclose]
  omega

theorem size_object (fields : List (String × List Char)) :
    size (object fields) + (if fields.isEmpty then 0 else 1) =
      2 + (fields.map fun f => size (text f.1) + size f.2 + 2).sum := by
  have h := size_commas (fields.map fun f => text f.1 ++ ':' :: f.2)
  have hopen : ('\x7b' : Char).utf8Size = 1 := rfl
  have hclose : ('\x7d' : Char).utf8Size = 1 := rfl
  have hcolon : (':' : Char).utf8Size = 1 := rfl
  have hitems : (List.map (fun item => size item + 1)
      (fields.map fun f => text f.1 ++ ':' :: f.2)).sum =
        (fields.map fun f => size (text f.1) + size f.2 + 2).sum := by
    rw [List.map_map]
    refine congrArg List.sum (List.map_congr_left fun f _ => ?_)
    simp only [Function.comp_apply, size_append, size_cons, hcolon]
    omega
  rw [hitems, List.isEmpty_map] at h
  rw [object, size_cons, size_append, size_cons, size_nil, hopen, hclose]
  omega

end JsonText

end KDown
