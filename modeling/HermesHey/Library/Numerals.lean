import Mathlib.Data.List.Induction
import HermesHey.Library.Decimal

/-! Runs of digits and their values. A run without a leading zero is the decimal
numeral of its value, and of two runs of one length the one that comes first as
text is the smaller number. -/
namespace Library

private theorem ofDigitChars_lt (chars : List Char) (value : Nat) (numeral : ∀ c ∈ chars, c.isDigit = true) :
    Nat.ofDigitChars 10 chars value < (value + 1) * 10 ^ chars.length := by
  induction chars generalizing value with
  | nil => simp
  | cons c rest ih =>
    obtain ⟨first, others⟩ := List.forall_mem_cons.mp numeral
    have small : c.toNat - '0'.toNat ≤ 9 := Nat.sub_le_sub_right (Char.isDigit_iff_toNat.mp first).2 _
    rw [Nat.ofDigitChars_cons, List.length_cons, Nat.pow_succ, Nat.mul_comm _ 10, ← Nat.mul_assoc]
    exact (ih _ others).trans_le (Nat.mul_le_mul_right _ (by omega))

/-- A run of digits is a list of characters. -/
theorem digits_chars (numeral : ∀ point ∈ t, CodePoint.isDigit point = true) :
    ∃ chars : List Char, t = chars.map ch ∧ ∀ c ∈ chars, c.isDigit = true := by
  induction t with
  | nil => exact ⟨[], rfl, by simp⟩
  | cons point rest ih =>
    obtain ⟨first, others⟩ := List.forall_mem_cons.mp numeral
    obtain ⟨chars, rfl, digits⟩ := ih others
    cases point with
    | surrogate offset => cases first
    | scalar c => exact ⟨c :: chars, rfl, List.forall_mem_cons.mpr ⟨first, digits⟩⟩

theorem digitsValue_chars (chars : List Char) : digitsValue (chars.map ch) = Nat.ofDigitChars 10 chars 0 := by
  simp [digitsValue, List.filterMap_map, Function.comp_def, CodePoint.scalar?]

/-- A numeral of so many digits is below that power of ten. -/
theorem digitsValue_lt (digits : Text) (numeral : ∀ point ∈ digits, point.isDigit = true) :
    digitsValue digits < 10 ^ digits.length := by
  obtain ⟨chars, rfl, isDigit⟩ := digits_chars numeral
  rw [digitsValue_chars, List.length_map]
  simpa using ofDigitChars_lt chars 0 isDigit

/-! ## Canonical numerals -/

theorem isDigit_range (digit : Char.isDigit c = true) : 48 ≤ c.toNat ∧ c.toNat ≤ 57 :=
  Char.isDigit_iff_toNat.mp digit

theorem digit_small (digit : Char.isDigit c = true) : c.toNat - '0'.toNat < 10 := by
  have range := isDigit_range digit
  have zero : '0'.toNat = 48 := rfl
  omega

theorem digitChar_of_isDigit (digit : c.isDigit = true) : Nat.digitChar (c.toNat - '0'.toNat) = c := by
  have range := isDigit_range digit
  have zero : '0'.toNat = 48 := rfl
  have same : (Nat.digitChar (c.toNat - '0'.toNat)).toNat = c.toNat := by
    have value := Nat.toNat_digitChar_sub_48_of_lt_ten (digit_small digit)
    have numeral : (Nat.digitChar (c.toNat - '0'.toNat)).isDigit = true :=
      Nat.isDigit_of_mem_toDigits (b := 10) (by decide) (by decide)
        (by rw [Nat.toDigits_of_lt_base (digit_small digit)]; exact List.mem_singleton_self _)
    have := isDigit_range numeral
    omega
  exact Char.toNat_inj.mp same

private theorem toDigits_ofDigitChars (first : Char) (rest : List Char) (digit : first.isDigit = true)
    (nonzero : first ≠ '0')
    (digits : ∀ c ∈ rest, c.isDigit = true) :
    Nat.toDigits 10 (Nat.ofDigitChars 10 (first :: rest) 0) = first :: rest := by
  -- induction on the digits from the front one on
  induction rest using List.reverseRecOn with
  | nil =>
    rw [Nat.ofDigitChars_cons, Nat.ofDigitChars_nil, Nat.mul_zero, Nat.zero_add,
      Nat.toDigits_of_lt_base (digit_small digit), digitChar_of_isDigit digit]
  | append_singleton front last ih =>
    have known := ih fun c held => digits c (List.mem_append_left _ held)
    have isDigit := digits last (by simp)
    have small := digit_small isDigit
    have positive : 0 < Nat.ofDigitChars 10 (first :: front) 0 := by
      apply Nat.pos_of_ne_zero
      intro zero
      rw [zero] at known
      cases known
      exact nonzero rfl
    rw [← List.cons_append, Nat.ofDigitChars_append, Nat.ofDigitChars_cons, Nat.ofDigitChars_nil]
    rw [← Nat.toDigits_append_toDigits (by decide) positive small, known, Nat.toDigits_of_lt_base small,
      digitChar_of_isDigit isDigit]

/-- A run of digits without a leading zero is the numeral of its value. -/
theorem decimal_digitsValue (numeral : ∀ point ∈ ch first :: rest, point.isDigit = true) (nonzero : first ≠ '0') :
    decimal (digitsValue (ch first :: rest)) = ch first :: rest := by
  obtain ⟨chars, same, digits⟩ := digits_chars numeral
  cases chars with
  | nil => cases same
  | cons c others =>
    obtain ⟨rfl, rfl⟩ : c = first ∧ others.map ch = rest := by simpa [eq_comm] using same
    rw [same, digitsValue_chars, decimal]
    rw [toDigits_ofDigitChars c others (digits c List.mem_cons_self) nonzero
      fun d held => digits d (List.mem_cons_of_mem _ held)]

/-! ## Order -/

/-- The first digit counts for the highest power. -/
theorem digitsValue_cons (digit : Char) (rest : Text) (numeral : ∀ point ∈ rest, point.isDigit = true) :
    digitsValue (ch digit :: rest) = 10 ^ rest.length * (digit.toNat - '0'.toNat) + digitsValue rest := by
  obtain ⟨chars, rfl, _⟩ := digits_chars numeral
  rw [← List.map_cons, digitsValue_chars, digitsValue_chars, Nat.ofDigitChars_cons,
    Nat.ofDigitChars_eq_ofDigitChars_zero, List.length_map]
  simp

private theorem cons_le_cons {c d : Nat} {front back : List Nat} :
    c :: front ≤ d :: back ↔ c < d ∨ c = d ∧ front ≤ back := by
  rw [← not_lt, ← not_lt, List.cons_lt_cons_iff]
  by_cases less : back < front <;> simp only [less, and_true, and_false, or_false, not_true, not_false_iff] <;> omega

/-- Runs of one length are ordered as their values are. -/
theorem le_iff_digitsValue_le (s t : Text) (sDigits : ∀ point ∈ s, point.isDigit = true)
    (tDigits : ∀ point ∈ t, point.isDigit = true) (same : s.length = t.length) :
    Text.le s t = true ↔ digitsValue s ≤ digitsValue t := by
  induction s generalizing t with
  | nil =>
    cases t with
    | nil => simp [Text.le]
    | cons point rest => cases same
  | cons point rest ih =>
    cases t with
    | nil => cases same
    | cons point' rest' =>
      obtain ⟨sFirst, sRest⟩ := List.forall_mem_cons.mp sDigits
      obtain ⟨tFirst, tRest⟩ := List.forall_mem_cons.mp tDigits
      cases point with
      | surrogate offset => cases sFirst
      | scalar c =>
        cases point' with
        | surrogate offset => cases tFirst
        | scalar d =>
          have lengths : rest.length = rest'.length := Nat.succ.inj same
          have tails := ih rest' sRest tRest lengths
          have sBound := digitsValue_lt rest sRest
          have tBound := digitsValue_lt rest' tRest
          have cRange := isDigit_range sFirst
          have dRange := isDigit_range tFirst
          have zero : '0'.toNat = 48 := rfl
          simp only [Text.le, decide_eq_true_eq, List.map_cons, cons_le_cons, CodePoint.code] at tails ⊢
          rw [digitsValue_cons c rest sRest, digitsValue_cons d rest' tRest, tails, ← lengths]
          rw [← lengths] at tBound
          -- The first digits decide, since a tail is worth less than one unit of them.
          rcases Nat.lt_trichotomy c.toNat d.toNat with below | equal | above
          · have step : 10 ^ rest.length * (c.toNat - '0'.toNat) + 10 ^ rest.length ≤
                10 ^ rest.length * (d.toNat - '0'.toNat) := by
              rw [← Nat.mul_succ]
              exact Nat.mul_le_mul_left _ (by omega)
            omega
          · rw [equal]
            omega
          · have step : 10 ^ rest.length * (d.toNat - '0'.toNat) + 10 ^ rest.length ≤
                10 ^ rest.length * (c.toNat - '0'.toNat) := by
              rw [← Nat.mul_succ]
              exact Nat.mul_le_mul_left _ (by omega)
            omega

end Library
