/-
Benchhand.Js.Number — JavaScript numbers and the decimals that name them.

A Number is a binary64 value: a finite `Double`, an infinity or NaN. `Double`
carries the canonical form of its significand and exponent as a field, so two
finite values are equal as data exactly when `Object.is` holds of them; in
particular -0 and 0 are different.

`ofMagnitude` is the "Number value for" a nonnegative rational: round to
nearest, ties to even, overflow to infinity. `shortestDigits` picks the
decimal that `Number::toString` prints: the fewest digits whose rounding is
the number again. That such a decimal exists is `exists_digits`: a double is a
dyadic rational, so enough digits name it exactly, and rounding an exact name
gives the number back (`ofMagnitude_magnitude`).
-/
import Mathlib.Algebra.Order.Field.Power
import Mathlib.Algebra.Order.Floor.Semiring
import Mathlib.Data.Int.Log
import Mathlib.Data.Nat.Digits.Lemmas
import Mathlib.Data.Rat.Floor
import Mathlib.Tactic.Linarith
import Mathlib.Tactic.FieldSimp
import Mathlib.Tactic.NormNum
import Mathlib.Tactic.Positivity
import Mathlib.Tactic.Ring

namespace Benchhand.Js

/-! ## Numbers -/

/-- The significands and exponents of finite binary64 values: normal ones have
53 bits, subnormal ones and zero the least exponent. -/
def Canonical (mant : Nat) (exp : Int) : Prop :=
  mant < 2 ^ 53 ∧ -1074 ≤ exp ∧ exp ≤ 971 ∧ (2 ^ 52 ≤ mant ∨ exp = -1074)

instance (mant : Nat) (exp : Int) : Decidable (Canonical mant exp) := by
  unfold Canonical; infer_instance

/-- A finite binary64 value: `mant * 2 ^ exp`, negated when `neg`. -/
structure Double where
  neg : Bool
  mant : Nat
  exp : Int
  canonical : Canonical mant exp
  deriving DecidableEq

inductive Number where
  | finite (x : Double)
  | infinity (neg : Bool)
  | nan
  deriving DecidableEq

def Double.zero (neg : Bool) : Double := ⟨neg, 0, -1074, by decide⟩

theorem canonical_one : Canonical (2 ^ 52) (-52) := by decide

def Double.one : Double := ⟨false, 2 ^ 52, -52, canonical_one⟩

def Double.isZero (x : Double) : Bool := x.mant == 0

/-- The value without its sign. -/
def Double.magnitude (x : Double) : ℚ := x.mant * 2 ^ x.exp

/-- `Number.isFinite`. -/
def Number.isFinite : Number → Bool
  | .finite _ => true
  | .infinity _ => false
  | .nan => false

/-- `a === b` on numbers: -0 and 0 are the same, NaN is not itself. -/
def Number.strictEquals : Number → Number → Bool
  | .finite x, .finite y => x == y || (x.isZero && y.isZero)
  | .infinity m, .infinity n => m == n
  | _, _ => false

/-! ## Rounding -/

/-- The nearest natural number, ties to even. -/
def roundHalfEven (q : ℚ) : Nat :=
  let f := ⌊q⌋₊
  if q - f < 1 / 2 then f else if 1 / 2 < q - f then f + 1 else f + f % 2

/-- The exponent a binary64 value near `r` has. -/
def binaryExponent (r : ℚ) : Int := max (Int.log 2 r - 52) (-1074)

/-- A finite value with these parts; past the largest exponent, infinity. -/
def Number.ofParts (neg : Bool) (mant : Nat) (exp : Int) : Number :=
  if h : Canonical mant exp then .finite ⟨neg, mant, exp, h⟩ else .infinity neg

/-- The Number value for a nonnegative rational with the given sign. -/
def Number.ofMagnitude (neg : Bool) (r : ℚ) : Number :=
  if r = 0 then .finite (.zero neg)
  else
    let e := binaryExponent r
    let m := roundHalfEven (r / 2 ^ e)
    -- rounding up to the next power of two moves the exponent
    if m = 2 ^ 53 then .ofParts neg (2 ^ 52) (e + 1) else .ofParts neg m e

theorem roundHalfEven_natCast (n : Nat) : roundHalfEven n = n := by
  simp [roundHalfEven]

theorem le_roundHalfEven {n : Nat} {q : ℚ} (h : (n : ℚ) ≤ q) : n ≤ roundHalfEven q := by
  have hf : n ≤ ⌊q⌋₊ := Nat.le_floor h
  simp only [roundHalfEven]
  split <;> [skip; split] <;> omega

theorem roundHalfEven_le {n : Nat} {q : ℚ} (h0 : 0 ≤ q) (h : q < n) : roundHalfEven q ≤ n := by
  have hf : ⌊q⌋₊ < n := (Nat.floor_lt h0).mpr h
  simp only [roundHalfEven]
  split <;> [skip; split] <;> omega

theorem Double.magnitude_nonneg (x : Double) : 0 ≤ x.magnitude := by
  unfold Double.magnitude; positivity

theorem Double.magnitude_eq_zero_iff (x : Double) : x.magnitude = 0 ↔ x.mant = 0 := by
  have h2 : (2 : ℚ) ^ x.exp ≠ 0 := by positivity
  simp [Double.magnitude, h2]

theorem Double.magnitude_pos {x : Double} (hx : x.mant ≠ 0) : 0 < x.magnitude :=
  lt_of_le_of_ne x.magnitude_nonneg (Ne.symm (mt x.magnitude_eq_zero_iff.mp hx))

/-- The binary exponent of a canonical nonzero value is its own. -/
theorem binaryExponent_magnitude {x : Double} (hx : x.mant ≠ 0) :
    binaryExponent x.magnitude = x.exp := by
  have hmag := Double.magnitude_pos hx
  obtain ⟨neg, mant, exp, hlt, hlo, hhi, hnorm⟩ := x
  have hpos : (0 : ℚ) < mant * 2 ^ exp := hmag
  change binaryExponent (mant * 2 ^ exp) = exp
  have hexp : (0 : ℚ) < 2 ^ exp := by positivity
  have hup : (mant : ℚ) * 2 ^ exp < (2 : Nat) ^ (53 + exp) := by
    rw [Nat.cast_ofNat, zpow_add₀ (by norm_num : (2 : ℚ) ≠ 0)]
    exact mul_lt_mul_of_pos_right (by exact_mod_cast hlt) hexp
  have hlog := (Int.lt_zpow_iff_log_lt (by norm_num) hpos).mp hup
  unfold binaryExponent
  rcases hnorm with hnorm | rfl
  · have hlow : ((2 : Nat) : ℚ) ^ (52 + exp) ≤ mant * 2 ^ exp := by
      rw [Nat.cast_ofNat, zpow_add₀ (by norm_num : (2 : ℚ) ≠ 0)]
      exact mul_le_mul_of_nonneg_right (by exact_mod_cast hnorm) hexp.le
    have hge := (Int.zpow_le_iff_le_log (by norm_num) hpos).mp hlow
    omega
  · omega

/-- A zero significand is the canonical zero. -/
theorem Double.eq_zero_of_mant {x : Double} (hx : x.mant = 0) : x = .zero x.neg := by
  obtain ⟨neg, mant, exp, hc⟩ := x
  obtain rfl : mant = 0 := hx
  obtain rfl : exp = -1074 := by
    rcases hc.2.2.2 with h | h
    · exact absurd h (by decide)
    · exact h
  rfl

/-- Rounding the exact value of a double gives the double. -/
theorem ofMagnitude_magnitude (x : Double) :
    Number.ofMagnitude x.neg x.magnitude = .finite x := by
  by_cases hx : x.mant = 0
  · rw [Number.ofMagnitude, if_pos (x.magnitude_eq_zero_iff.mpr hx),
      ← Double.eq_zero_of_mant hx]
  · have h2 : (2 : ℚ) ^ x.exp ≠ 0 := by positivity
    have hr : x.magnitude ≠ 0 := (Double.magnitude_pos hx).ne'
    have hq : x.magnitude / 2 ^ x.exp = (x.mant : ℚ) := by
      rw [Double.magnitude, mul_div_assoc, div_self h2, mul_one]
    have hne : x.mant ≠ 2 ^ 53 := Nat.ne_of_lt x.canonical.1
    rw [Number.ofMagnitude, if_neg hr]
    simp only [binaryExponent_magnitude hx, hq, roundHalfEven_natCast, if_neg hne,
      Number.ofParts, dif_pos x.canonical]

/-! ## Natural numbers -/

/-- The number of a natural number. -/
def Number.ofNat (n : Nat) : Number := .ofMagnitude false n

/-- Every natural number below 2^53 is a double. -/
theorem exists_double {n : Nat} (h : n < 2 ^ 53) : ∃ x : Double, x.neg = false ∧ x.magnitude = n := by
  obtain rfl | hpos := Nat.eq_zero_or_pos n
  · exact ⟨.zero false, rfl, by simp [Double.magnitude, Double.zero]⟩
  have hlo := Nat.pow_log_le_self 2 hpos.ne'
  have hhi := Nat.lt_pow_succ_log_self Nat.one_lt_two n
  have hlog : Nat.log 2 n ≤ 52 := Nat.lt_succ_iff.mp (Nat.log_lt_of_lt_pow hpos.ne' h)
  have hsplit : 2 ^ Nat.log 2 n * 2 ^ (52 - Nat.log 2 n) = 2 ^ 52 := by
    rw [← pow_add, Nat.add_sub_cancel' hlog]
  have hcanonical : Canonical (n * 2 ^ (52 - Nat.log 2 n)) ((Nat.log 2 n : Int) - 52) := by
    refine ⟨?_, by omega, by omega, .inl ?_⟩
    · calc n * 2 ^ (52 - Nat.log 2 n)
          < 2 ^ (Nat.log 2 n + 1) * 2 ^ (52 - Nat.log 2 n) :=
            Nat.mul_lt_mul_of_pos_right hhi (by positivity)
        _ = 2 ^ 53 := by rw [pow_succ, mul_right_comm, hsplit]; rfl
    · rw [← hsplit]
      exact Nat.mul_le_mul_right _ hlo
  refine ⟨⟨false, _, _, hcanonical⟩, rfl, ?_⟩
  have hexp : ((Nat.log 2 n : Int) - 52) = -((52 - Nat.log 2 n : Nat) : Int) := by omega
  change ((n * 2 ^ (52 - Nat.log 2 n) : Nat) : ℚ) * 2 ^ ((Nat.log 2 n : Int) - 52) = n
  rw [hexp, zpow_neg, zpow_natCast]
  push_cast
  exact mul_inv_cancel_right₀ (by positivity) _

theorem ofNat_eq {n : Nat} (h : n < 2 ^ 53) :
    ∃ x : Double, Number.ofNat n = .finite x ∧ x.neg = false ∧ x.magnitude = n := by
  obtain ⟨x, hneg, hmagnitude⟩ := exists_double h
  refine ⟨x, ?_, hneg, hmagnitude⟩
  rw [← ofMagnitude_magnitude x, hneg, hmagnitude, Number.ofNat]

/-! ## The shortest decimal -/

/-- The place of the first decimal digit: `10 ^ (n - 1) ≤ r < 10 ^ n`. -/
def decimalExponent (r : ℚ) : Int := Int.log 10 r + 1

/-- `r` rounded to `k` significant decimal digits, as an integer: the decimal
is `nearestDigits r k * 10 ^ (decimalExponent r - k)`. It is `10 ^ k` when the
rounding carries into a new digit. -/
def nearestDigits (r : ℚ) (k : Nat) : Nat :=
  roundHalfEven (r / 10 ^ (decimalExponent r - k))

/-- The decimal with `k` digits nearest to `r` reads back as `x`. -/
def DigitsName (x : Double) (k : Nat) : Prop :=
  1 ≤ k ∧ Number.ofMagnitude x.neg
    (nearestDigits x.magnitude k * 10 ^ (decimalExponent x.magnitude - k)) = .finite x

instance (x : Double) : DecidablePred (DigitsName x) := fun k => by
  unfold DigitsName; infer_instance

/-- Every double has a decimal that reads back as it: with enough digits the
decimal is exact. -/
theorem exists_digits (x : Double) : ∃ k, DigitsName x k := by
  -- `2 ^ exp` is an integer over a power of ten, so `N` digits past the point are enough
  obtain ⟨N, a, ha⟩ : ∃ N a : Nat, x.magnitude * 10 ^ (N : Int) = a := by
    refine ⟨x.exp.natAbs, x.mant * (2 ^ (x.exp + x.exp.natAbs).toNat * 5 ^ x.exp.natAbs), ?_⟩
    have hexp : (2 : ℚ) ^ x.exp * 2 ^ (x.exp.natAbs : Int) = 2 ^ (x.exp + x.exp.natAbs).toNat := by
      rw [← zpow_add₀ (by norm_num : (2 : ℚ) ≠ 0), ← zpow_natCast, Int.toNat_of_nonneg (by omega)]
    have h10 : (10 : ℚ) ^ (x.exp.natAbs : Int) = 2 ^ (x.exp.natAbs : Int) * 5 ^ x.exp.natAbs := by
      rw [zpow_natCast, zpow_natCast, ← mul_pow]
      norm_num
    rw [Double.magnitude, h10, Nat.cast_mul, Nat.cast_mul, Nat.cast_pow, Nat.cast_pow,
      Nat.cast_ofNat, Nat.cast_ofNat, ← hexp]
    ring
  -- one more place than the point needs, so that the count is at least one
  set n := decimalExponent x.magnitude with hn
  let M := max N (1 - n).toNat
  have hk : ((n + M).toNat : Int) = n + M := Int.toNat_of_nonneg (by omega)
  refine ⟨(n + M).toNat, by omega, ?_⟩
  have hexact : x.magnitude / 10 ^ (n - ((n + M).toNat : Int))
      = ((a * 10 ^ (M - N) : Nat) : ℚ) := by
    have hM : (10 : ℚ) ^ (M : Int) = 10 ^ (N : Int) * 10 ^ (M - N) := by
      rw [← zpow_natCast, ← zpow_add₀ (by norm_num : (10 : ℚ) ≠ 0)]
      congr 1
      omega
    rw [hk, show n - (n + (M : Int)) = -(M : Int) by ring, zpow_neg, div_inv_eq_mul, hM,
      ← mul_assoc, ha]
    push_cast
    ring
  have hback : ((nearestDigits x.magnitude (n + M).toNat : Nat) : ℚ)
      * 10 ^ (n - ((n + M).toNat : Int)) = x.magnitude := by
    rw [nearestDigits, ← hn, hexact, roundHalfEven_natCast, ← hexact]
    exact div_mul_cancel₀ _ (by positivity)
  rw [← hn, hback]
  exact ofMagnitude_magnitude x

/-- The digits `Number::toString` prints and the place of the first: the
integers `s` and `n` of the specification, for the least `k`. -/
def shortestDigits (x : Double) : Nat × Int :=
  let k := Nat.find (exists_digits x)
  let s := nearestDigits x.magnitude k
  if s = 10 ^ k then (10 ^ (k - 1), decimalExponent x.magnitude + 1)
  else (s, decimalExponent x.magnitude)

/-- A nonzero value scaled to `k` digits before the point has `k` of them. -/
theorem nearestDigits_bounds {r : ℚ} (hr : 0 < r) {k : Nat} (hk : 1 ≤ k) :
    10 ^ (k - 1) ≤ nearestDigits r k ∧ nearestDigits r k ≤ 10 ^ k := by
  have h10 : (10 : ℚ) ≠ 0 := by norm_num
  have hscale : (0 : ℚ) < 10 ^ (decimalExponent r - k) := by positivity
  have hlo : ((10 : Nat) : ℚ) ^ Int.log 10 r ≤ r := Int.zpow_log_le_self (by norm_num) hr
  have hhi : r < ((10 : Nat) : ℚ) ^ (Int.log 10 r + 1) :=
    Int.lt_zpow_succ_log_self (by norm_num) r
  rw [Nat.cast_ofNat] at hlo hhi
  constructor
  · refine le_roundHalfEven ((le_div_iff₀ hscale).mpr ?_)
    rw [Nat.cast_pow, Nat.cast_ofNat, ← zpow_natCast, ← zpow_add₀ h10]
    rwa [show ((k - 1 : Nat) : Int) + (decimalExponent r - k) = Int.log 10 r by
      unfold decimalExponent; omega]
  · refine roundHalfEven_le (by positivity) ((div_lt_iff₀ hscale).mpr ?_)
    rw [Nat.cast_pow, Nat.cast_ofNat, ← zpow_natCast, ← zpow_add₀ h10]
    rwa [show (k : Int) + (decimalExponent r - k) = Int.log 10 r + 1 by
      unfold decimalExponent; omega]

/-- A number between two powers of ten has as many digits as they say. -/
theorem length_digits {s k : Nat} (hk : 1 ≤ k) (hlo : 10 ^ (k - 1) ≤ s) (hhi : s < 10 ^ k) :
    (Nat.digits 10 s).length = k := by
  have hs : s ≠ 0 := by
    have : 0 < 10 ^ (k - 1) := by positivity
    omega
  rw [Nat.length_digits 10 s (by norm_num) hs,
    Nat.log_eq_of_pow_le_of_lt_pow hlo (by rwa [Nat.sub_add_cancel hk])]
  omega

/-- What the printed digits denote rounds to the number they were printed for. -/
theorem shortestDigits_spec {x : Double} (hx : x.mant ≠ 0) :
    (shortestDigits x).1 ≠ 0 ∧
    Number.ofMagnitude x.neg ((shortestDigits x).1
      * 10 ^ ((shortestDigits x).2 - (Nat.digits 10 (shortestDigits x).1).length)) = .finite x := by
  obtain ⟨hk, hname⟩ := Nat.find_spec (exists_digits x)
  obtain ⟨hlo, hhi⟩ := nearestDigits_bounds (Double.magnitude_pos hx) hk
  unfold shortestDigits
  set k := Nat.find (exists_digits x)
  dsimp only
  have hpos : 0 < 10 ^ (k - 1) := by positivity
  split
  case isTrue hcarry =>
    refine ⟨hpos.ne', ?_⟩
    rw [length_digits hk le_rfl (Nat.pow_lt_pow_right (by norm_num) (by omega)), ← hname, hcarry]
    -- both sides are ten to the same power
    congr 1
    rw [Nat.cast_pow, Nat.cast_pow, Nat.cast_ofNat, ← zpow_natCast, ← zpow_natCast,
      ← zpow_add₀ (by norm_num : (10 : ℚ) ≠ 0), ← zpow_add₀ (by norm_num : (10 : ℚ) ≠ 0)]
    congr 1
    omega
  case isFalse hcarry =>
    refine ⟨by omega, ?_⟩
    rw [length_digits hk hlo (lt_of_le_of_ne hhi hcarry)]
    exact hname

end Benchhand.Js
