import WebhookRelay.Text

/-
  `base64.urlsafe_b64encode` and `base64.urlsafe_b64decode`. The decoder is the
  lenient one of `binascii.a2b_base64`: characters outside the alphabet are
  skipped, padding that completes a group ends the input, and only an
  incomplete last group is an error.

  `b64decode_b64encode` is the round trip: what was encoded decodes to itself,
  for every length.
-/
namespace Py

/-- The URL-safe alphabet. -/
def b64Char (n : Nat) : Char :=
  Char.ofNat (if n < 26 then 65 + n else if n < 52 then 71 + n else if n < 62 then n - 4
    else if n = 62 then 45 else 95)

/-- The value of a character, after `-_` have been translated to `+/`. -/
def b64Value? (c : Char) : Option Nat :=
  let n := c.toNat
  if 65 ≤ n ∧ n ≤ 90 then some (n - 65)
  else if 97 ≤ n ∧ n ≤ 122 then some (n - 71)
  else if 48 ≤ n ∧ n ≤ 57 then some (n + 4)
  else if n = 45 ∨ n = 43 then some 62
  else if n = 95 ∨ n = 47 then some 63
  else none

/-- `base64.urlsafe_b64encode`. -/
def b64encode : List UInt8 → List Char
  | [] => []
  | [a] => [b64Char (a.toNat / 4), b64Char (a.toNat % 4 * 16), '=', '=']
  | [a, b] =>
    [b64Char (a.toNat / 4), b64Char (a.toNat % 4 * 16 + b.toNat / 16), b64Char (b.toNat % 16 * 4), '=']
  | a :: b :: c :: rest =>
    b64Char (a.toNat / 4) :: b64Char (a.toNat % 4 * 16 + b.toNat / 16) ::
      b64Char (b.toNat % 16 * 4 + c.toNat / 64) :: b64Char (c.toNat % 64) :: b64encode rest

/-- The loop of `a2b_base64`: `pos` characters of the current group are read,
`left` holds the bits not yet emitted, `pads` the padding seen since the last
data character. `none` is binascii.Error. -/
def a2b : (pos left pads : Nat) → List Char → Option (List UInt8)
  | pos, _, _, [] => if pos = 0 then some [] else none
  | pos, left, pads, c :: cs =>
    if c = '=' then
      if 2 ≤ pos ∧ 4 ≤ pos + (pads + 1) then some []
      else a2b pos left (if 2 ≤ pos then pads + 1 else pads) cs
    else
      match b64Value? c with
      | none => a2b pos left pads cs
      | some v =>
        match pos with
        | 0 => a2b 1 v 0 cs
        | 1 => (a2b 2 (v % 16) 0 cs).map (UInt8.ofNat (left * 4 + v / 16) :: ·)
        | 2 => (a2b 3 (v % 4) 0 cs).map (UInt8.ofNat (left * 16 + v / 4) :: ·)
        | _ => (a2b 0 0 0 cs).map (UInt8.ofNat (left * 64 + v) :: ·)

/-- `base64.urlsafe_b64decode` of ASCII text. -/
def b64decode (s : List Char) : Option (List UInt8) := a2b 0 0 0 s

theorem b64Value?_b64Char : ∀ n, n < 64 → b64Value? (b64Char n) = some n := by decide

theorem b64Char_ne_pad : ∀ n, n < 64 → b64Char n ≠ '=' := by decide

theorem b64Char_ascii : ∀ n, n < 64 → (b64Char n).toNat < 0x80 := by decide

/-- A data character moves the loop on by its value. -/
theorem a2b_data {n : Nat} (h : n < 64) (pos left pads : Nat) (cs : List Char) :
    a2b pos left pads (b64Char n :: cs) =
      match pos with
      | 0 => a2b 1 n 0 cs
      | 1 => (a2b 2 (n % 16) 0 cs).map (UInt8.ofNat (left * 4 + n / 16) :: ·)
      | 2 => (a2b 3 (n % 4) 0 cs).map (UInt8.ofNat (left * 16 + n / 4) :: ·)
      | _ => (a2b 0 0 0 cs).map (UInt8.ofNat (left * 64 + n) :: ·) := by
  rw [a2b, if_neg (b64Char_ne_pad n h), b64Value?_b64Char n h]

theorem ofNat_eq {n : Nat} {a : UInt8} (h : n = a.toNat) : UInt8.ofNat n = a := by
  rw [h, UInt8.ofNat_toNat]

theorem b64decode_b64encode (bs : List UInt8) : b64decode (b64encode bs) = some bs := by
  unfold b64decode
  induction bs using b64encode.induct with
  | case1 => rfl
  | case2 a =>
    have ha := a.toNat_lt
    rw [b64encode, a2b_data (by omega), a2b_data (by omega)]
    simp only [a2b, if_true]
    simp only [show ¬ 4 ≤ 2 + (0 + 1) by omega, and_false, if_false,
      show 2 ≤ 2 ∧ 4 ≤ 2 + (0 + 1 + 1) by omega,
      and_self, if_true, Option.map_some]
    rw [ofNat_eq (a := a) (by omega)]
  | case3 a b =>
    have ha := a.toNat_lt
    have hb := b.toNat_lt
    rw [b64encode, a2b_data (by omega), a2b_data (by omega)]
    simp only [a2b_data (show b.toNat % 16 * 4 < 64 by omega)]
    simp only [a2b, if_true]
    rw [if_pos (by omega), Option.map_some, Option.map_some, ofNat_eq (a := a) (by omega),
      ofNat_eq (a := b) (by omega)]
  | case4 a b c rest ih =>
    have ha := a.toNat_lt
    have hb := b.toNat_lt
    have hc := c.toNat_lt
    rw [b64encode, a2b_data (by omega), a2b_data (by omega)]
    simp only [a2b_data (show b.toNat % 16 * 4 + c.toNat / 64 < 64 by omega),
      a2b_data (show c.toNat % 64 < 64 by omega), ih, Option.map_some]
    rw [ofNat_eq (a := a) (by omega), ofNat_eq (a := b) (by omega), ofNat_eq (a := c) (by omega)]

/-- Encoded text is ASCII. -/
theorem b64encode_ascii (bs : List UInt8) : ∀ c ∈ b64encode bs, c.toNat < 0x80 := by
  have key : ∀ n, n < 64 → ∀ c, c = b64Char n → c.toNat < 0x80 := by
    rintro n hn c rfl
    exact b64Char_ascii n hn
  induction bs using b64encode.induct with
  | case1 => simp [b64encode]
  | case2 a =>
    have ha := a.toNat_lt
    intro c hc
    simp only [b64encode, List.mem_cons, List.not_mem_nil, or_false] at hc
    rcases hc with h | h | rfl | rfl
    · exact key _ (by omega) c h
    · exact key _ (by omega) c h
    · decide
    · decide
  | case3 a b =>
    have ha := a.toNat_lt
    have hb := b.toNat_lt
    intro c hc
    simp only [b64encode, List.mem_cons, List.not_mem_nil, or_false] at hc
    rcases hc with h | h | h | rfl
    · exact key _ (by omega) c h
    · exact key _ (by omega) c h
    · exact key _ (by omega) c h
    · decide
  | case4 a b c rest ih =>
    have ha := a.toNat_lt
    have hb := b.toNat_lt
    have hc := c.toNat_lt
    intro x hx
    simp only [b64encode, List.mem_cons] at hx
    rcases hx with h | h | h | h | h
    · exact key _ (by omega) x h
    · exact key _ (by omega) x h
    · exact key _ (by omega) x h
    · exact key _ (by omega) x h
    · exact ih x h

example : b64encode [0x66, 0x6F, 0xFF] = ['Z', 'm', '_', '_'] := by decide
example : b64decode ['Z', 'm', '8', '='] = some [0x66, 0x6F] := by decide

end Py
