import Mathlib.Data.List.Induction
import EosUpdater.GLib.KeyFile

/-!
# Unsigned numbers in texts

`g_ascii_string_to_unsigned` in base 10: a number is all digits, without a sign or blanks, and lies
within bounds. It may have zeros in front, so that several texts denote one number; the text that
`printf` writes for it is the one that has none to spare (`repr_ofDigitChars_iff`).
-/

namespace GLib

/-- `GNumberParserError`. -/
inductive NumberParserError
  | invalid (message : String)
  | outOfBounds (message : String)
deriving DecidableEq, Repr

/-- The message of an error. -/
def NumberParserError.message : NumberParserError → String
  | invalid message => message
  | outOfBounds message => message

/-- `g_ascii_string_to_unsigned` in base 10. What does not fit a `guint64` is out of any bounds. -/
def asciiStringToUnsigned (str : String) (min max : ℕ) : Except NumberParserError ℕ :=
  let number := Nat.ofDigitChars 10 str.toList 0
  if str.toList = [] then .error (.invalid "Empty string is not a number")
  else if ¬ str.toList.all Char.isDigit then
    .error (.invalid ("“" ++ str ++ "” is not an unsigned number"))
  else if 2 ^ 64 ≤ number ∨ number < min ∨ max < number then
    .error (.outOfBounds ("Number “" ++ str ++ "” is out of bounds [" ++ toString min ++ ", " ++
      toString max ++ "]"))
  else .ok number

/-- The text is a decimal number. -/
def IsDecimal (digits : List Char) : Prop := digits ≠ [] ∧ ∀ c ∈ digits, c.isDigit = true

/-- Digits are looked at one by one. -/
instance (digits : List Char) : Decidable (IsDecimal digits) :=
  decidable_of_iff (digits ≠ [] ∧ digits.all Char.isDigit = true)
    (and_congr_right' List.all_eq_true)

/-- There is a zero in front that could be left out. -/
def HasLeadingZero (digits : List Char) : Prop := digits.head? = some '0' ∧ 1 < digits.length

/-- The first digit is looked at. -/
instance (digits : List Char) : Decidable (HasLeadingZero digits) := by
  unfold HasLeadingZero
  infer_instance

/-- A text is parsed as a number exactly if it is decimal and the number is within the bounds. -/
theorem asciiStringToUnsigned_eq_ok_iff {str : String} {min max n : ℕ} (hmax : max < 2 ^ 64) :
    asciiStringToUnsigned str min max = .ok n ↔
      IsDecimal str.toList ∧ Nat.ofDigitChars 10 str.toList 0 = n ∧ min ≤ n ∧ n ≤ max := by
  rw [asciiStringToUnsigned, IsDecimal]
  by_cases hempty : str.toList = []
  · simp [hempty]
  by_cases hdigits : str.toList.all Char.isDigit = true
  · have hall : ∀ c ∈ str.toList, c.isDigit = true := List.all_eq_true.1 hdigits
    simp only [hempty, hdigits, if_false, not_true]
    split_ifs with hbounds
    · refine ⟨nofun, ?_⟩
      rintro ⟨-, rfl, hlow, hhigh⟩
      omega
    · rw [Except.ok.injEq]
      refine ⟨?_, fun h => h.2.1⟩
      rintro rfl
      exact ⟨⟨hempty, hall⟩, rfl, by omega, by omega⟩
  · have hnot : ¬ ∀ c ∈ str.toList, c.isDigit = true := fun h => hdigits (List.all_eq_true.2 h)
    simp [hempty, hdigits, hnot]

/-! ### Decimal notation -/

/-- The digits of a number are decimal. -/
theorem isDecimal_toDigits (n : ℕ) : IsDecimal (Nat.toDigits 10 n) :=
  ⟨Nat.toDigits_ne_nil, fun _ hc => Nat.isDigit_of_mem_toDigits (by decide) (by decide) hc⟩

/-- A digit is less than ten. -/
theorem lt_ten_of_isDigit {c : Char} (h : c.isDigit = true) : c.toNat - '0'.toNat < 10 := by
  rw [Char.isDigit_iff_toNat] at h
  have hzero : '0'.toNat = 48 := rfl
  have hnine : '9'.toNat = 57 := rfl
  omega

/-- A digit is written as itself. -/
theorem toDigits_of_isDigit {c : Char} (h : c.isDigit = true) :
    Nat.toDigits 10 (c.toNat - '0'.toNat) = [c] := by
  have hlt := lt_ten_of_isDigit h
  rw [Char.isDigit_iff_toNat] at h
  have hdigit : (c.toNat - '0'.toNat).digitChar = c := by
    apply Char.toNat_inj.1
    rw [Nat.toNat_digitChar_of_lt_ten hlt]
    have hzero : '0'.toNat = 48 := rfl
    omega
  rw [Nat.toDigits_of_lt_base hlt, hdigit]

theorem ofDigitChars_concat (digits : List Char) (c : Char) :
    Nat.ofDigitChars 10 (digits ++ [c]) 0 =
      10 * Nat.ofDigitChars 10 digits 0 + (c.toNat - '0'.toNat) := by
  rw [Nat.ofDigitChars_append, Nat.ofDigitChars_cons, Nat.ofDigitChars_nil]

/-- A number is less than ten to the number of its digits. -/
theorem ofDigitChars_lt {digits : List Char} (h : ∀ c ∈ digits, c.isDigit = true) :
    Nat.ofDigitChars 10 digits 0 < 10 ^ digits.length := by
  induction digits using List.reverseRecOn with
  | nil => decide
  | append_singleton digits c ih =>
      have hlt := lt_ten_of_isDigit (h c (by simp))
      have hinit := ih fun c' hc' => h c' (List.mem_append_left _ hc')
      rw [ofDigitChars_concat, List.length_append, List.length_singleton, Nat.pow_succ]
      omega

/-- Without a zero in front, the digits are written again, and the number is not zero. -/
private theorem toDigits_of_no_zero {digits : List Char} (h : IsDecimal digits)
    (hhead : digits.head? ≠ some '0') :
    0 < Nat.ofDigitChars 10 digits 0 ∧ Nat.toDigits 10 (Nat.ofDigitChars 10 digits 0) = digits := by
  obtain ⟨hne, hdigits⟩ := h
  induction digits using List.reverseRecOn with
  | nil => exact absurd rfl hne
  | append_singleton digits c ih =>
      have hc := hdigits c (by simp)
      rw [ofDigitChars_concat]
      rcases List.eq_nil_or_concat' digits with rfl | ⟨init, last, rfl⟩
      · -- a single digit
        have hpos : 0 < c.toNat - '0'.toNat := by
          rw [Char.isDigit_iff_toNat] at hc
          refine Nat.pos_of_ne_zero fun hzero => hhead ?_
          have hceq : c = '0' := Char.toNat_inj.1 (by omega)
          rw [hceq]
          rfl
        rw [Nat.ofDigitChars_nil, Nat.mul_zero, Nat.zero_add, toDigits_of_isDigit hc]
        exact ⟨hpos, rfl⟩
      · have hhead' : (init ++ [last]).head? ≠ some '0' := by
          rwa [List.head?_append_of_ne_nil _ (by simp)] at hhead
        obtain ⟨hpos, hinit⟩ := ih hhead' (by simp) fun c' hc' =>
          hdigits c' (List.mem_append_left _ hc')
        rw [← Nat.toDigits_append_toDigits (by decide) hpos (lt_ten_of_isDigit hc), hinit,
          toDigits_of_isDigit hc]
        exact ⟨by omega, rfl⟩

/-- **Decimal notation.** Of the texts that denote a number, it is written as the one without a zero
to spare. -/
theorem toDigits_ofDigitChars_iff {digits : List Char} (h : IsDecimal digits) :
    Nat.toDigits 10 (Nat.ofDigitChars 10 digits 0) = digits ↔ ¬ HasLeadingZero digits := by
  by_cases hhead : digits.head? = some '0'
  · obtain ⟨rest, rfl⟩ : ∃ rest, digits = '0' :: rest := by
      cases digits with
      | nil => cases hhead
      | cons c rest => exact ⟨rest, by rw [Option.some.inj hhead]⟩
    have hvalue : Nat.ofDigitChars 10 ('0' :: rest) 0 = Nat.ofDigitChars 10 rest 0 := by
      rw [Nat.ofDigitChars_cons]
      rfl
    have hlt := ofDigitChars_lt fun c hc => h.2 c (List.mem_cons_of_mem _ hc)
    rw [hvalue, HasLeadingZero, List.length_cons]
    rcases Nat.eq_zero_or_pos rest.length with hlen | hlen
    · rw [List.length_eq_zero_iff.1 hlen]
      decide
    · -- the number has fewer digits than the text
      have hshort := (Nat.length_toDigits_le_iff (by decide) hlen).2 hlt
      refine ⟨fun heq => ?_, fun hnot => absurd ⟨rfl, by omega⟩ hnot⟩
      rw [heq, List.length_cons] at hshort
      omega
  · rw [(toDigits_of_no_zero h hhead).2]
    simp [HasLeadingZero, hhead]

end GLib
