import HermesHey.Library.Text

/-! Decimal numerals as code-point strings: printing, reading back, and the
shape `[1-9][0-9]*` that identifiers use. -/
namespace Library

/-- The decimal numeral of a natural number. -/
def decimal (n : Nat) : Text := (Nat.toDigits 10 n).map ch

/-- The decimal numeral of an integer, with a leading minus sign when negative. -/
def decimalInt : Int → Text
  | .ofNat n => decimal n
  | .negSucc n => ch '-' :: decimal (n + 1)

/-- The value of a run of decimal digits. -/
def digitsValue (digits : Text) : Nat := Nat.ofDigitChars 10 (digits.filterMap CodePoint.scalar?) 0

/-- A maximal run of digits, and what follows it. -/
def spanDigits (t : Text) : Text × Text := (t.takeWhile CodePoint.isDigit, t.dropWhile CodePoint.isDigit)

/-- `[1-9][0-9]*` at the front of a string: the run matched and what follows. -/
def spanPositive (t : Text) : Option (Text × Text) :=
  match spanDigits t with
  | (first :: digits, rest) => if first = ch '0' then none else some (first :: digits, rest)
  | ([], _) => none

/-- The continuation after a numeral must not extend it. -/
def NoDigitAhead (t : Text) : Prop := ∀ point ∈ t.head?, point.isDigit = false

@[simp] theorem noDigitAhead_nil : NoDigitAhead [] := by simp [NoDigitAhead]

@[simp] theorem noDigitAhead_cons : NoDigitAhead (point :: rest) ↔ point.isDigit = false := by
  simp [NoDigitAhead]

/-- A numeral is made of digits. -/
theorem decimal_isDigit (member : point ∈ decimal n) : point.isDigit = true := by
  obtain ⟨digit, inside, rfl⟩ := List.mem_map.mp member
  exact Nat.isDigit_of_mem_toDigits (by decide) (by decide) inside

@[simp] theorem decimal_ne_nil : decimal n ≠ [] := by simp [decimal]

@[simp] theorem decimal_zero : decimal 0 = [ch '0'] := rfl

/-- The value of a numeral is its number. -/
theorem digitsValue_decimal (n : Nat) : digitsValue (decimal n) = n := by
  simp [digitsValue, decimal, List.filterMap_map, Function.comp_def, CodePoint.scalar?]

/-- Different numbers have different numerals. -/
theorem decimal_injective : Function.Injective decimal :=
  Function.LeftInverse.injective digitsValue_decimal

private theorem toDigits_head (n : Nat) (positive : 0 < n) :
    ∃ digit rest, Nat.toDigits 10 n = digit :: rest ∧ digit ≠ '0' := by
  induction n using Nat.strongRecOn with
  | ind n ih =>
    by_cases small : n < 10
    · exact ⟨_, [], Nat.toDigits_of_lt_base small, by simpa using positive.ne'⟩
    · obtain ⟨digit, rest, front, nonzero⟩ := ih (n / 10) (by omega) (by omega)
      exact ⟨digit, _, by rw [Nat.toDigits_of_base_le (by decide) (by omega), front]; rfl, nonzero⟩

/-- A positive numeral starts with a digit other than zero. -/
theorem decimal_head (positive : 0 < n) :
    ∃ digit rest, decimal n = ch digit :: rest ∧ digit.isDigit = true ∧ digit ≠ '0' := by
  obtain ⟨digit, rest, front, nonzero⟩ := toDigits_head n positive
  have inside : digit ∈ Nat.toDigits 10 n := by simp [front]
  exact ⟨digit, rest.map ch, by simp [decimal, front],
    Nat.isDigit_of_mem_toDigits (by decide) (by decide) inside, nonzero⟩

/-- Reading digits stops exactly at their end. -/
theorem spanDigits_digits (digits : ∀ point ∈ ds, CodePoint.isDigit point = true) (ahead : NoDigitAhead rest) :
    spanDigits (ds ++ rest) = (ds, rest) := by
  have stops : rest.takeWhile CodePoint.isDigit = [] ∧ rest.dropWhile CodePoint.isDigit = rest := by
    cases rest with
    | nil => simp
    | cons point tail => simp_all [NoDigitAhead]
  simp [spanDigits, List.takeWhile_append_of_pos digits, List.dropWhile_append_of_pos digits, stops]

/-- A numeral is read up to its last digit. -/
theorem spanDigits_decimal (ahead : NoDigitAhead rest) :
    spanDigits (decimal n ++ rest) = (decimal n, rest) :=
  spanDigits_digits (fun _ => decimal_isDigit) ahead

/-- So is the numeral of a positive number, which has no leading zero. -/
theorem spanPositive_decimal (positive : 0 < n) (ahead : NoDigitAhead rest) :
    spanPositive (decimal n ++ rest) = some (decimal n, rest) := by
  obtain ⟨digit, tail, front, _, nonzero⟩ := decimal_head positive
  rw [spanPositive, spanDigits_decimal ahead, front]
  simp [nonzero]

/-- A numeral has at most `k` digits exactly below `10 ^ k`. -/
theorem decimal_length_le (positive : 0 < k) : (decimal n).length ≤ k ↔ n < 10 ^ k := by
  simpa [decimal] using Nat.length_toDigits_le_iff (b := 10) (by decide) positive

theorem decimalInt_injective : Function.Injective decimalInt := by
  intro a b same
  cases a with
  | ofNat n =>
    cases b with
    | ofNat m => exact congrArg Int.ofNat (decimal_injective same)
    | negSucc m =>
      have minus : ch '-' ∈ decimal n := by
        have front : decimal n = ch '-' :: decimal (m + 1) := same
        simp [front]
      exact absurd (decimal_isDigit minus) (by decide)
  | negSucc n =>
    cases b with
    | ofNat m =>
      have minus : ch '-' ∈ decimal m := by
        have front : ch '-' :: decimal (n + 1) = decimal m := same
        simp [← front]
      exact absurd (decimal_isDigit minus) (by decide)
    | negSucc m =>
      have tails : decimal (n + 1) = decimal (m + 1) := (List.cons.inj same).2
      have values := decimal_injective tails
      exact congrArg Int.negSucc (by omega)

end Library
