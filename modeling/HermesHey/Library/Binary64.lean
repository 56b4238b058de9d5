import Mathlib.Data.Int.Log
import Mathlib.Data.Rat.Floor
import Mathlib.Tactic.Linarith
import Mathlib.Tactic.FieldSimp

/-! Non-negative double-precision numbers, as rationals. An operation rounds its
exact result to the nearest number of the format, a tie to the even significand,
below the least normal number to the fixed step, from 2^1024 on to infinity. -/
namespace Library

inductive Binary64 where
  | nan
  | infinity
  | finite (value : ℚ)
  deriving DecidableEq, Repr

namespace Binary64

/-- The nearest integer, and of two the even one. -/
def roundEven (q : ℚ) : ℤ :=
  if Int.fract q < 1 / 2 ∨ Int.fract q = 1 / 2 ∧ ⌊q⌋ % 2 = 0 then ⌊q⌋ else ⌊q⌋ + 1

/-- The exponent of the last place of a number of this size. -/
def lastPlace (q : ℚ) : ℤ := max (Int.log 2 q - 52) (-1074)

/-- The nearest number, the exponent being unbounded above. -/
def nearest (q : ℚ) : ℚ := roundEven (q / 2 ^ lastPlace q) * 2 ^ lastPlace q

def round (q : ℚ) : Binary64 := if nearest q < 2 ^ 1024 then .finite (nearest q) else .infinity

def ofNat (n : ℕ) : Binary64 := round n

def mul : Binary64 → Binary64 → Binary64
  | .finite x, .finite y => round (x * y)
  | .infinity, .infinity => .infinity
  | .infinity, .finite x | .finite x, .infinity => if x = 0 then .nan else .infinity
  | _, _ => .nan

def div : Binary64 → Binary64 → Binary64
  | .finite x, .finite y => if y = 0 then if x = 0 then .nan else .infinity else round (x / y)
  | .infinity, .finite _ => .infinity
  | .finite _, .infinity => .finite 0
  | _, _ => .nan

/-- `x > 0` -/
def positive : Binary64 → Bool
  | .finite x => decide (0 < x)
  | .infinity => true
  | .nan => false

/-- Conversion to 64-bit integers, towards zero. The languages leave it open what becomes of the rest. -/
def toUInt64 : Binary64 → UInt64
  | .finite x => .ofNat ⌊x⌋₊
  | _ => 0

/-! ## Rounding -/

theorem roundEven_nonneg (nonneg : 0 ≤ q) : 0 ≤ roundEven q := by
  have floor := Int.floor_nonneg.mpr nonneg
  unfold roundEven
  split <;> omega

/-- Rounding up takes at least a half. -/
theorem roundEven_le (nonneg : 0 ≤ q) : (roundEven q : ℚ) ≤ 2 * q := by
  have floor : (0 : ℚ) ≤ ⌊q⌋ := Int.cast_nonneg (Int.floor_nonneg.mpr nonneg)
  have parts := Int.floor_add_fract q
  have rest := Int.fract_nonneg q
  unfold roundEven
  split
  · linarith
  · rename_i half
    have large : 1 / 2 ≤ Int.fract q := not_lt.mp fun small => half (.inl small)
    push_cast
    linarith

/-- Rounding down takes at most a half. -/
theorem le_roundEven (large : 1 ≤ q) : q / 2 ≤ roundEven q := by
  have floor : (1 : ℚ) ≤ ⌊q⌋ := by exact_mod_cast Int.le_floor.mpr (by exact_mod_cast large)
  have parts := Int.floor_add_fract q
  have rest := Int.fract_lt_one q
  unfold roundEven
  split
  · rename_i half
    have small : Int.fract q ≤ 1 / 2 := half.elim le_of_lt fun tie => tie.1.le
    linarith
  · push_cast
    linarith

theorem roundEven_int (n : ℤ) : roundEven n = n := by simp [roundEven]

private theorem step_pos (q : ℚ) : (0 : ℚ) < 2 ^ lastPlace q := zpow_pos (by norm_num) _

theorem nearest_nonneg (nonneg : 0 ≤ q) : 0 ≤ nearest q := by
  have step := step_pos q
  have whole : (0 : ℚ) ≤ roundEven (q / 2 ^ lastPlace q) := Int.cast_nonneg (roundEven_nonneg (by positivity))
  unfold nearest
  positivity

/-- Rounding at most doubles. -/
theorem nearest_le (nonneg : 0 ≤ q) : nearest q ≤ 2 * q := by
  have step := step_pos q
  have rounded := roundEven_le (show 0 ≤ q / 2 ^ lastPlace q by positivity)
  calc nearest q ≤ 2 * (q / 2 ^ lastPlace q) * 2 ^ lastPlace q := mul_le_mul_of_nonneg_right rounded step.le
    _ = 2 * q := by field_simp

/-- And at most halves. -/
theorem le_nearest (large : 1 ≤ q) : q / 2 ≤ nearest q := by
  have step := step_pos q
  have below : (2 : ℚ) ^ lastPlace q ≤ q := by
    have size : (2 : ℚ) ^ Int.log 2 q ≤ q := by
      exact_mod_cast Int.zpow_log_le_self one_lt_two (show 0 < q by linarith)
    have normal : (2 : ℚ) ^ (Int.log 2 q - 52) ≤ q := (zpow_le_zpow_right₀ one_le_two (by omega)).trans size
    have least : (2 : ℚ) ^ (-1074 : ℤ) ≤ q := (zpow_le_one_of_nonpos₀ (by norm_num) (by norm_num)).trans large
    rcases max_choice (Int.log 2 q - 52) (-1074) with same | same <;> rw [lastPlace, same]
    · exact normal
    · exact least
  have rounded := le_roundEven ((one_le_div step).mpr below)
  calc q / 2 = q / 2 ^ lastPlace q / 2 * 2 ^ lastPlace q := by field_simp
    _ ≤ nearest q := mul_le_mul_of_nonneg_right rounded step.le

/-- A number with at most 53 significant bits is in the format. -/
theorem nearest_exact (m k : ℕ) (bits : m < 2 ^ 53) : nearest (m * 2 ^ k) = m * 2 ^ k := by
  rcases Nat.eq_zero_or_pos m with rfl | positive
  · simp [nearest, roundEven]
  have log : Int.log 2 (m * 2 ^ k : ℚ) < k + 53 := by
    have exact : (0 : ℚ) < m * 2 ^ k := by positivity
    have bound : m * 2 ^ k < 2 ^ (k + 53) := by
      rw [Nat.pow_add, Nat.mul_comm]
      exact (Nat.mul_lt_mul_left (Nat.two_pow_pos k)).mpr bits
    rw [← Int.lt_zpow_iff_log_lt one_lt_two exact]
    exact_mod_cast bound
  have place : lastPlace (m * 2 ^ k) ≤ k := by
    unfold lastPlace
    omega
  have step := step_pos (m * 2 ^ k)
  rw [nearest]
  generalize lastPlace (m * 2 ^ k) = e at place step
  obtain ⟨j, shift⟩ := Int.eq_ofNat_of_zero_le (sub_nonneg.mpr place)
  have scaled : (2 : ℚ) ^ k = 2 ^ j * 2 ^ e := by
    have split : (k : ℤ) = j + e := by omega
    calc (2 : ℚ) ^ k = 2 ^ (j + e : ℤ) := by rw [← split, zpow_natCast]
      _ = 2 ^ j * 2 ^ e := by rw [zpow_add₀ two_ne_zero, zpow_natCast]
  have whole : (m * 2 ^ k : ℚ) / 2 ^ e = ((m * 2 ^ j : ℤ) : ℚ) := by
    rw [div_eq_iff step.ne', scaled]
    push_cast
    ring
  rw [whole, roundEven_int, ← whole]
  field_simp

/-- Integers of 53 bits, and their multiples by powers of two, are exact. -/
theorem round_exact (m k : ℕ) (bits : m < 2 ^ 53) (range : (m * 2 ^ k : ℚ) < 2 ^ 1024) :
    round (m * 2 ^ k) = .finite (m * 2 ^ k) := by
  rw [round, nearest_exact m k bits, if_pos range]

/-! ## Bounds -/

/-- A number of at most this size. -/
def AtMost (x : Binary64) (bound : ℚ) : Prop := ∃ value, x = .finite value ∧ 0 ≤ value ∧ value ≤ bound

/-- A number of at least this size, or infinity. -/
def AtLeast (x : Binary64) (bound : ℚ) : Prop := x = .infinity ∨ ∃ value, x = .finite value ∧ bound ≤ value

/-- A bound may be raised. -/
theorem AtMost.mono (small : AtMost x a) (le : a ≤ b) : x.AtMost b := by
  obtain ⟨v, same, nonneg, held⟩ := small
  exact ⟨v, same, nonneg, held.trans le⟩

/-- A rounded number is at most twice the bound. -/
theorem round_atMost (nonneg : 0 ≤ q) (small : q ≤ bound) (range : 2 * bound < 2 ^ 1024) :
    (round q).AtMost (2 * bound) := by
  have below : nearest q ≤ 2 * bound := (nearest_le nonneg).trans (mul_le_mul_of_nonneg_left small zero_le_two)
  exact ⟨nearest q, by rw [round, if_pos (below.trans_lt range)], nearest_nonneg nonneg, below⟩

/-- A rounded number is at least half of what it was. -/
theorem round_atLeast (large : 1 ≤ q) : (round q).AtLeast (q / 2) := by
  unfold round
  split
  · exact .inr ⟨nearest q, rfl, le_nearest large⟩
  · exact .inl rfl

/-- The bound of a product. -/
theorem AtMost.mul (first : AtMost x a) (second : AtMost y b) (range : 2 * (a * b) < 2 ^ 1024) :
    (Binary64.mul x y).AtMost (2 * (a * b)) := by
  obtain ⟨v, rfl, vNonneg, vSmall⟩ := first
  obtain ⟨w, rfl, wNonneg, wSmall⟩ := second
  exact round_atMost (mul_nonneg vNonneg wNonneg) (mul_le_mul vSmall wSmall wNonneg (vNonneg.trans vSmall)) range

/-- Division by a larger number gives a smaller one. -/
theorem AtMost.div (first : AtMost x a) (second : AtLeast y b) (positive : 0 < b) (range : 2 * (a / b) < 2 ^ 1024) :
    (Binary64.div x y).AtMost (2 * (a / b)) := by
  obtain ⟨v, rfl, vNonneg, vSmall⟩ := first
  have nonneg : 0 ≤ a := vNonneg.trans vSmall
  rcases second with rfl | ⟨w, rfl, large⟩
  · exact ⟨0, rfl, le_rfl, by positivity⟩
  · have wPositive : 0 < w := positive.trans_le large
    have unfolded : Binary64.div (.finite v) (.finite w) = round (v / w) := by
      rw [Binary64.div, if_neg wPositive.ne']
    rw [unfolded]
    exact round_atMost (by positivity) (div_le_div₀ nonneg vSmall positive large) range

/-- A factor of at least two makes up for the rounding. -/
theorem AtLeast.mul (first : AtLeast x a) (large : 1 ≤ a) (factor : 2 ≤ c) :
    (Binary64.mul x (.finite c)).AtLeast a := by
  rcases first with rfl | ⟨v, rfl, held⟩
  · left
    rw [Binary64.mul, if_neg (by linarith)]
  · have product : 2 * a ≤ v * c := by nlinarith
    rcases round_atLeast (show 1 ≤ v * c by linarith) with infinite | ⟨w, finite, half⟩
    · exact .inl infinite
    · exact .inr ⟨w, finite, by linarith⟩

/-- The conversion to an integer keeps the bound. -/
theorem AtMost.toUInt64 {n : ℕ} (small : AtMost x n) : x.toUInt64.toNat ≤ n := by
  obtain ⟨v, rfl, _, held⟩ := small
  have floor : ⌊v⌋₊ ≤ n := Nat.floor_le_of_le held
  rw [Binary64.toUInt64, UInt64.toNat_ofNat']
  exact (Nat.mod_le _ _).trans floor

end Binary64
end Library
