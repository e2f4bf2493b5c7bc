import Mathlib.Algebra.Ring.Nat
import Mathlib.Data.List.Basic
import Mathlib.Tactic.Common

/-!
# Base64

`g_base64_encode` and `g_base64_decode`, the latter on what the former makes: three bytes at a time
are four characters of six bits each, and padding takes the place of what is missing at the end.
-/

namespace GLib

/-- The characters for the values of six bits. -/
def base64Alphabet : List Char :=
  "ABCDEFGHIJKLMNOPQRSTUVWXYZabcdefghijklmnopqrstuvwxyz0123456789+/".toList

/-- The character for six bits. -/
def base64Char (n : ℕ) : Char := base64Alphabet.getD n '='

/-- The six bits of a character. Padding stands for zeros. -/
def base64Value (c : Char) : ℕ := if c = '=' then 0 else base64Alphabet.idxOf c

/-- The character for the six bits at a place. -/
def base64Digit (n place : ℕ) : Char := base64Char (n / 64 ^ place % 64)

/-- The 24 bits of four characters. -/
def base64Bits (c₃ c₂ c₁ c₀ : Char) : ℕ :=
  base64Value c₃ * 64 ^ 3 + base64Value c₂ * 64 ^ 2 + base64Value c₁ * 64 + base64Value c₀

/-- The characters that bytes are encoded as. -/
def base64EncodeChars : List UInt8 → List Char
  | [] => []
  | [a] =>
      let n := a.toNat * 2 ^ 16
      [base64Digit n 3, base64Digit n 2, '=', '=']
  | [a, b] =>
      let n := a.toNat * 2 ^ 16 + b.toNat * 2 ^ 8
      [base64Digit n 3, base64Digit n 2, base64Digit n 1, '=']
  | a :: b :: c :: bytes =>
      let n := a.toNat * 2 ^ 16 + b.toNat * 2 ^ 8 + c.toNat
      base64Digit n 3 :: base64Digit n 2 :: base64Digit n 1 :: base64Digit n 0 ::
        base64EncodeChars bytes

/-- The bytes that characters are decoded to. -/
def base64DecodeChars : List Char → List UInt8
  | c₃ :: c₂ :: c₁ :: c₀ :: text =>
      let n := base64Bits c₃ c₂ c₁ c₀
      let a := UInt8.ofNat (n / 2 ^ 16)
      let b := UInt8.ofNat (n / 2 ^ 8)
      if c₁ = '=' then [a]
      else if c₀ = '=' then [a, b]
      else a :: b :: UInt8.ofNat n :: base64DecodeChars text
  | _ => []

/-- `g_base64_encode`. -/
def base64Encode (data : List UInt8) : String := String.ofList (base64EncodeChars data)

/-- `g_base64_decode`. -/
def base64Decode (text : String) : List UInt8 := base64DecodeChars text.toList

/-! ### Decoding what was encoded -/

/-- Each of the 64 characters is read as the digit it is written for, and none is the padding. -/
theorem base64Value_base64Char :
    ∀ n < 64, base64Char n ≠ '=' ∧ base64Value (base64Char n) = n := by
  decide +kernel

/-- A digit is never written as the padding. -/
theorem base64Digit_ne_padding (n place : ℕ) : base64Digit n place ≠ '=' :=
  (base64Value_base64Char _ (Nat.mod_lt _ (by decide))).1

/-- A written digit is read as the digit at its place. -/
theorem base64Value_base64Digit (n place : ℕ) :
    base64Value (base64Digit n place) = n / 64 ^ place % 64 :=
  (base64Value_base64Char _ (Nat.mod_lt _ (by decide))).2

@[simp] theorem base64Value_padding : base64Value '=' = 0 := rfl

/-- Four characters have the bits that they were made of. -/
theorem base64Bits_base64Digit {n : ℕ} (h : n < 2 ^ 24) :
    base64Bits (base64Digit n 3) (base64Digit n 2) (base64Digit n 1) (base64Digit n 0) = n := by
  simp only [base64Bits, base64Value_base64Digit]
  omega

private theorem ofNat_eq {n : ℕ} {a : UInt8} (h : n % 256 = a.toNat) : UInt8.ofNat n = a := by
  apply UInt8.toNat_inj.1
  rw [UInt8.toNat_ofNat']
  exact h

/-- Decoding gives back the data that were encoded. -/
theorem base64DecodeChars_base64EncodeChars (data : List UInt8) :
    base64DecodeChars (base64EncodeChars data) = data := by
  induction data using base64EncodeChars.induct with
  | case1 => rfl
  | case2 a =>
      have ha := a.toNat_lt
      -- what padding takes the place of are zeros
      have hbits : base64Bits (base64Digit (a.toNat * 2 ^ 16) 3) (base64Digit (a.toNat * 2 ^ 16) 2)
          '=' '=' = a.toNat * 2 ^ 16 := by
        simp only [base64Bits, base64Value_base64Digit, base64Value_padding]
        omega
      rw [base64EncodeChars, base64DecodeChars, hbits, if_pos rfl, ofNat_eq (a := a) (by omega)]
  | case3 a b =>
      have ha := a.toNat_lt
      have hb := b.toNat_lt
      have hbits : base64Bits (base64Digit (a.toNat * 2 ^ 16 + b.toNat * 2 ^ 8) 3)
          (base64Digit (a.toNat * 2 ^ 16 + b.toNat * 2 ^ 8) 2)
          (base64Digit (a.toNat * 2 ^ 16 + b.toNat * 2 ^ 8) 1) '=' =
            a.toNat * 2 ^ 16 + b.toNat * 2 ^ 8 := by
        simp only [base64Bits, base64Value_base64Digit, base64Value_padding]
        omega
      rw [base64EncodeChars, base64DecodeChars, hbits, if_neg (base64Digit_ne_padding _ _),
        if_pos rfl, ofNat_eq (a := a) (by omega), ofNat_eq (a := b) (by omega)]
  | case4 a b c bytes ih =>
      have ha := a.toNat_lt
      have hb := b.toNat_lt
      have hc := c.toNat_lt
      rw [base64EncodeChars, base64DecodeChars, base64Bits_base64Digit (by omega),
        if_neg (base64Digit_ne_padding _ _), if_neg (base64Digit_ne_padding _ _), ih,
        ofNat_eq (a := a) (by omega), ofNat_eq (a := b) (by omega), ofNat_eq (a := c) (by omega)]

/-- Decoding gives back what was encoded. -/
theorem base64Decode_base64Encode (data : List UInt8) :
    base64Decode (base64Encode data) = data := by
  rw [base64Decode, base64Encode, String.toList_ofList, base64DecodeChars_base64EncodeChars]

example : base64Encode [1] = "AQ==" ∧ base64Encode [0x65, 0x3f, 0x6a] = "ZT9q" := by
  decide +kernel

end GLib
