import Mathlib.Data.List.Basic
import Mathlib.Data.Nat.Basic

/-
  Text as CPython holds it. A `str` is a sequence of code points, surrogates
  included (`Str`); text that came through a UTF-8 decoder has no surrogates
  and is a list of `Char`s. `utf8Decode` is `bytes.decode("utf-8")` (strict),
  `Str.encode` says when `str.encode("utf-8")` succeeds, and `strip` is
  `str.strip()`.
-/
namespace Py

/-- A code point, surrogates included. -/
abbrev CodePoint := Fin 0x110000

/-- A Python `str`. -/
abbrev Str := List CodePoint

theorem char_lt (c : Char) : c.toNat < 0x110000 := by
  rcases c.valid with h | h
  · exact Nat.lt_trans h (by decide)
  · exact h.2

/-- The code point of a scalar value. -/
def CodePoint.ofChar (c : Char) : CodePoint := ⟨c.toNat, char_lt c⟩

/-- Text without surrogates, as a `str`. -/
def Str.ofChars (l : List Char) : Str := l.map CodePoint.ofChar

def CodePoint.isHigh (u : CodePoint) : Bool := 0xD800 ≤ u.val && u.val < 0xDC00
def CodePoint.isLow (u : CodePoint) : Bool := 0xDC00 ≤ u.val && u.val < 0xE000
def CodePoint.isSurrogate (u : CodePoint) : Bool := 0xD800 ≤ u.val && u.val < 0xE000

/-- The scalar value of a code point; `none` is a surrogate. -/
def CodePoint.toChar? (u : CodePoint) : Option Char :=
  if u.val.isValidChar then some (Char.ofNat u.val) else none

/-- `str.encode("utf-8")` as far as it can fail: `none` is UnicodeEncodeError,
and a `str` that encodes is the text of its scalar values. -/
def Str.encode : Str → Option (List Char)
  | [] => some []
  | u :: us =>
    match u.toChar?, Str.encode us with
    | some c, some cs => some (c :: cs)
    | _, _ => none

theorem isValidChar_iff (u : CodePoint) : u.val.isValidChar ↔ u.isSurrogate = false := by
  have := u.isLt
  simp only [Nat.isValidChar, CodePoint.isSurrogate, Bool.and_eq_false_iff, decide_eq_false_iff_not]
  omega

theorem toChar?_isSome (u : CodePoint) : u.toChar?.isSome = !u.isSurrogate := by
  unfold CodePoint.toChar?
  split
  · next h => simp [(isValidChar_iff u).mp h]
  · next h =>
    have : u.isSurrogate = true := by
      cases hs : u.isSurrogate
      · exact absurd ((isValidChar_iff u).mpr hs) h
      · rfl
    simp [this]

theorem toChar?_ofChar (c : Char) : (CodePoint.ofChar c).toChar? = some c := by
  have hv : c.toNat.isValidChar := c.valid
  unfold CodePoint.toChar? CodePoint.ofChar
  rw [if_pos hv, Char.ofNat_toNat]

/-- A `str` encodes exactly when it has no surrogate. -/
theorem encode_isSome (s : Str) : s.encode.isSome = s.all (fun u => !u.isSurrogate) := by
  induction s with
  | nil => rfl
  | cons u us ih =>
    rw [List.all_cons, ← toChar?_isSome, ← ih, Str.encode]
    cases u.toChar? <;> cases Str.encode us <;> rfl

theorem encode_ofChars (l : List Char) : (Str.ofChars l).encode = some l := by
  induction l with
  | nil => rfl
  | cons c l ih =>
    simp only [Str.ofChars, List.map_cons, Str.encode, toChar?_ofChar] at ih ⊢
    rw [ih]

theorem ofChar_not_surrogate (c : Char) : (CodePoint.ofChar c).isSurrogate = false :=
  (isValidChar_iff _).mp c.valid

/-! ## Decoding UTF-8 -/

/-- What the first byte of a character announces: how many bytes follow, the
bits it contributes, and the range of the next byte. `none` is a byte no
character starts with. -/
def utf8Lead (b : Nat) : Option (Nat × Nat × Nat × Nat) :=
  if b < 0x80 then some (0, b, 0x80, 0xBF)
  else if b < 0xC2 then none
  else if b < 0xE0 then some (1, b - 0xC0, 0x80, 0xBF)
  else if b = 0xE0 then some (2, 0, 0xA0, 0xBF)
  else if b = 0xED then some (2, 0xD, 0x80, 0x9F)
  else if b < 0xF0 then some (2, b - 0xE0, 0x80, 0xBF)
  else if b = 0xF0 then some (3, 0, 0x90, 0xBF)
  else if b < 0xF4 then some (3, b - 0xF0, 0x80, 0xBF)
  else if b = 0xF4 then some (3, 4, 0x80, 0x8F)
  else none

/-- Decoding with `need` bytes of a character still owed, `acc` its bits so
far, and the next byte to lie between `lo` and `hi`. -/
def utf8Go : (need acc lo hi : Nat) → List UInt8 → Option (List Char)
  | 0, _, _, _, [] => some []
  | _ + 1, _, _, _, [] => none
  | 0, _, _, _, b :: bs =>
    match utf8Lead b.toNat with
    | none => none
    | some (0, v, _, _) => (utf8Go 0 0 0 0 bs).map (Char.ofNat v :: ·)
    | some (n + 1, v, lo, hi) => utf8Go (n + 1) v lo hi bs
  | 1, acc, lo, hi, b :: bs =>
    if lo ≤ b.toNat ∧ b.toNat ≤ hi then
      (utf8Go 0 0 0 0 bs).map (Char.ofNat (acc * 64 + (b.toNat - 0x80)) :: ·)
    else none
  | n + 2, acc, lo, hi, b :: bs =>
    if lo ≤ b.toNat ∧ b.toNat ≤ hi then
      utf8Go (n + 1) (acc * 64 + (b.toNat - 0x80)) 0x80 0xBF bs
    else none

/-- `bytes.decode("utf-8")`; `none` is UnicodeDecodeError. Overlong forms,
surrogates and values above U+10FFFF are refused. -/
def utf8Decode (bs : List UInt8) : Option (List Char) := utf8Go 0 0 0 0 bs

/-- ASCII text as bytes. -/
def asciiBytes (l : List Char) : List UInt8 := l.map (fun c => UInt8.ofNat c.toNat)

theorem utf8Decode_ascii (l : List Char) (h : ∀ c ∈ l, c.toNat < 0x80) :
    utf8Decode (asciiBytes l) = some l := by
  induction l with
  | nil => rfl
  | cons c l ih =>
    have hc : c.toNat < 0x80 := h c List.mem_cons_self
    have hn : (UInt8.ofNat c.toNat).toNat = c.toNat := by
      rw [UInt8.toNat_ofNat']; omega
    have ih := ih (fun x hx => h x (List.mem_cons_of_mem c hx))
    simp only [utf8Decode, asciiBytes] at ih
    simp only [utf8Decode, asciiBytes, List.map_cons, utf8Go, utf8Lead, hn, if_pos hc, ih,
      Option.map_some, Char.ofNat_toNat]

example : utf8Decode [0xE2, 0x82, 0xAC, 0x21] = some ['€', '!'] := by decide
example : utf8Decode [0xED, 0xA0, 0x80] = none := by decide

/-! ## Stripping white space -/

/-- `str.isspace` on a character. -/
def isSpace (c : Char) : Bool :=
  let n := c.toNat
  (9 ≤ n && n ≤ 13) || (28 ≤ n && n ≤ 32) || n == 0x85 || n == 0xA0 || n == 0x1680 ||
    (0x2000 ≤ n && n ≤ 0x200A) || n == 0x2028 || n == 0x2029 || n == 0x202F || n == 0x205F ||
    n == 0x3000

/-- `str.strip()`. -/
def strip (s : String) : String :=
  String.ofList ((s.toList.dropWhile isSpace).reverse.dropWhile isSpace).reverse

example : strip " a b\t\n" = "a b" := by decide

end Py
