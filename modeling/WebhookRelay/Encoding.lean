import WebhookRelay.Text

/-
  Writing UTF-8. `utf8Encode` is `str.encode("utf-8")` on text without
  surrogates; `utf8Decode_encode` says that the strict decoder gives the text
  back, whatever it is. The lead byte tells the decoder how many bytes follow and
  narrows the next one, against overlong forms and surrogates; a character that
  exists never meets these bounds (`valid_second`).
-/
namespace Py

/-- A byte that goes on with a character. -/
def tailByte (n : Nat) : UInt8 := UInt8.ofNat (0x80 + n % 64)

def utf8Char (c : Char) : List UInt8 :=
  let n := c.toNat
  if n < 0x80 then [UInt8.ofNat n]
  else if n < 0x800 then [UInt8.ofNat (0xC0 + n / 64), tailByte n]
  else if n < 0x10000 then [UInt8.ofNat (0xE0 + n / 4096), tailByte (n / 64), tailByte n]
  else [UInt8.ofNat (0xF0 + n / 262144), tailByte (n / 4096), tailByte (n / 64), tailByte n]

/-- `str.encode("utf-8")`. -/
def utf8Encode (cs : List Char) : List UInt8 := cs.flatMap utf8Char

/-! ## One character -/

theorem tailByte_toNat (n : Nat) : (tailByte n).toNat = 0x80 + n % 64 := by
  rw [tailByte, UInt8.toNat_ofNat']
  omega

theorem utf8Lead_two : ∀ k < 30, utf8Lead (0xC2 + k) = some (1, 2 + k, 0x80, 0xBF) := by decide

theorem utf8Lead_three : ∀ k < 16, utf8Lead (0xE0 + k) =
    some (2, k, if k = 0 then 0xA0 else 0x80, if k = 13 then 0x9F else 0xBF) := by decide

theorem utf8Lead_four : ∀ k < 5, utf8Lead (0xF0 + k) =
    some (3, k, if k = 0 then 0x90 else 0x80, if k = 4 then 0x8F else 0xBF) := by decide

/-- The last byte of a character completes it. -/
theorem utf8Go_last {acc lo hi n : Nat} (hlo : lo ≤ 0x80 + n % 64) (hhi : 0x80 + n % 64 ≤ hi) (bs : List UInt8) :
    utf8Go 1 acc lo hi (tailByte n :: bs) = (utf8Decode bs).map (Char.ofNat (acc * 64 + n % 64) :: ·) := by
  rw [utf8Go, tailByte_toNat, if_pos ⟨hlo, hhi⟩, Nat.add_sub_cancel_left]
  rfl

/-- Any other adds its six bits. -/
theorem utf8Go_more {need acc lo hi n : Nat} (hlo : lo ≤ 0x80 + n % 64) (hhi : 0x80 + n % 64 ≤ hi)
    (bs : List UInt8) :
    utf8Go (need + 2) acc lo hi (tailByte n :: bs) = utf8Go (need + 1) (acc * 64 + n % 64) 0x80 0xBF bs := by
  rw [utf8Go, tailByte_toNat, if_pos ⟨hlo, hhi⟩, Nat.add_sub_cancel_left]

theorem utf8Decode_lead {b : UInt8} {k n v lo hi : Nat} (hb : b.toNat = k)
    (hlead : utf8Lead k = some (n + 1, v, lo, hi)) (bs : List UInt8) :
    utf8Decode (b :: bs) = utf8Go (n + 1) v lo hi bs := by
  rw [utf8Decode, utf8Go, hb, hlead]

/-- The second byte of a character lies where its lead byte wants it. -/
theorem valid_second (c : Char) :
    (0x800 ≤ c.toNat → c.toNat < 0x10000 →
      (if c.toNat / 4096 = 0 then 0xA0 else 0x80) ≤ 0x80 + c.toNat / 64 % 64 ∧
        0x80 + c.toNat / 64 % 64 ≤ if c.toNat / 4096 = 13 then 0x9F else 0xBF) ∧
    (0x10000 ≤ c.toNat →
      (if c.toNat / 262144 = 0 then 0x90 else 0x80) ≤ 0x80 + c.toNat / 4096 % 64 ∧
        0x80 + c.toNat / 4096 % 64 ≤ if c.toNat / 262144 = 4 then 0x8F else 0xBF) := by
  have hvalid : c.toNat < 0xD800 ∨ (0xDFFF < c.toNat ∧ c.toNat < 0x110000) := c.valid
  constructor
  · intro h1 h2
    split <;> split <;> omega
  · intro h1
    split <;> split <;> omega

/-- A character in front of a text is decoded first. -/
theorem utf8Decode_char (c : Char) (bs : List UInt8) :
    utf8Decode (utf8Char c ++ bs) = (utf8Decode bs).map (c :: ·) := by
  obtain ⟨hthree, hfour⟩ := valid_second c
  have hlt := char_lt c
  have bits : ∀ {v : Nat}, v = c.toNat → (utf8Decode bs).map (Char.ofNat v :: ·) = (utf8Decode bs).map (c :: ·) := by
    intro v hv
    rw [hv, Char.ofNat_toNat]
  unfold utf8Char
  simp only
  split
  · next h1 =>
    have hb : (UInt8.ofNat c.toNat).toNat = c.toNat := by
      rw [UInt8.toNat_ofNat']
      omega
    rw [List.singleton_append, utf8Decode, utf8Go, hb, utf8Lead, if_pos h1]
    exact bits rfl
  · next h1 =>
    split
    · next h2 =>
      have hb : (UInt8.ofNat (0xC0 + c.toNat / 64)).toNat = 0xC2 + (c.toNat / 64 - 2) := by
        rw [UInt8.toNat_ofNat']
        omega
      have hlead := utf8Lead_two (c.toNat / 64 - 2) (by omega)
      rw [List.cons_append, utf8Decode_lead hb hlead, List.singleton_append, utf8Go_last (by omega) (by omega)]
      exact bits (by omega)
    · next h2 =>
      split
      · next h3 =>
        have hb : (UInt8.ofNat (0xE0 + c.toNat / 4096)).toNat = 0xE0 + c.toNat / 4096 := by
          rw [UInt8.toNat_ofNat']
          omega
        have hlead := utf8Lead_three (c.toNat / 4096) (by omega)
        obtain ⟨hlo, hhi⟩ := hthree (by omega) h3
        rw [List.cons_append, utf8Decode_lead hb hlead, List.cons_append, utf8Go_more hlo hhi, List.singleton_append,
          utf8Go_last (by omega) (by omega)]
        exact bits (by omega)
      · next h3 =>
        have hb : (UInt8.ofNat (0xF0 + c.toNat / 262144)).toNat = 0xF0 + c.toNat / 262144 := by
          rw [UInt8.toNat_ofNat']
          omega
        have hlead := utf8Lead_four (c.toNat / 262144) (by omega)
        obtain ⟨hlo, hhi⟩ := hfour (by omega)
        rw [List.cons_append, utf8Decode_lead hb hlead, List.cons_append, utf8Go_more hlo hhi, List.cons_append,
          utf8Go_more (by omega) (by omega), List.singleton_append, utf8Go_last (by omega) (by omega)]
        exact bits (by omega)

/-! ## A text -/

/-- **UTF-8.** The strict decoder gives back every text that was encoded. -/
theorem utf8Decode_encode (cs : List Char) : utf8Decode (utf8Encode cs) = some cs := by
  induction cs with
  | nil => rfl
  | cons c cs ih =>
    calc utf8Decode (utf8Encode (c :: cs))
        = (utf8Decode (utf8Encode cs)).map (c :: ·) := utf8Decode_char c (utf8Encode cs)
      _ = some (c :: cs) := by rw [ih, Option.map_some]

/-- ASCII text is its own UTF-8. -/
theorem utf8Encode_ascii {cs : List Char} (h : ∀ c ∈ cs, c.toNat < 0x80) : utf8Encode cs = asciiBytes cs := by
  induction cs with
  | nil => rfl
  | cons c cs ih =>
    have hc : utf8Char c = [UInt8.ofNat c.toNat] := by
      rw [utf8Char, if_pos (h c List.mem_cons_self)]
    calc utf8Encode (c :: cs) = utf8Char c ++ utf8Encode cs := List.flatMap_cons
      _ = asciiBytes (c :: cs) := by
        rw [hc, ih (fun x hx => h x (List.mem_cons_of_mem c hx))]
        rfl

example : utf8Encode ['é', '€', '\x7f'] = [0xC3, 0xA9, 0xE2, 0x82, 0xAC, 0x7F] := by decide

end Py
