import Mathlib.Data.Int.Log
import Mathlib.Data.Rat.Floor
import Mathlib.Tactic.Linarith
import Mathlib.Tactic.NormNum
import AgentOpsGateway.PyStr

/-!
# YAML Values, and Numbers as Python Compares and Prints Them

`Yaml` is a value `yaml.safe_load` produces, as far as the policy looks at it: numbers are
compared with the hours of a time range and printed, everything else is told apart from
them. A float carries its value, which may be an infinity or not a number, and the text
Python prints for it.

`toDouble` rounds a number to the float that Python computes; `formatG` is the format `g`.

## Main results

* `le_toDouble`: rounding to a float loses at most a half of the last place.
* `add_le_toDouble`: a float above an integer is above it by the last place.
* `toDouble_le_intCast`: rounding does not pass an integer that is a float.
-/

namespace Python

/-- The value of a float. -/
inductive Magnitude
  | finite (q : ℚ)
  | posInf
  | negInf
  | nan

/-- A value of a YAML document; dates, binary data and sets are `other`. -/
inductive Yaml
  | null
  | bool (b : Bool)
  | int (n : ℤ)
  | float (value : Magnitude) (text : Str)
  | str (s : Str)
  /-- A sequence or a mapping, which has no hash. -/
  | collection
  | other

/-- The value is a number that Python prints. -/
def Yaml.isNumber : Yaml → Bool
  | .int n => isPrinted n
  | .float _ _ => true
  | _ => false

/-- `x > m` for a float. -/
def Magnitude.below (x : ℚ) : Magnitude → Bool
  | .finite q => q < x
  | .negInf => true
  | .posInf | .nan => false

/-- `x > v` for a rational number `x`; `none` where the operand is no number and Python
raises `TypeError`. -/
def Yaml.below (x : ℚ) : Yaml → Option Bool
  | .bool b => some ((if b then 1 else 0) < x)
  | .int n => some (n < x)
  | .float m _ => some (m.below x)
  | .null | .str _ | .collection | .other => none

/-- A number of hours within the limit `v`. What is not a number bounds nothing. -/
def Yaml.Within (x : ℚ) : Yaml → Prop
  | .int n => x ≤ n
  | .float (.finite q) _ => x ≤ q
  | .float .posInf _ | .float .nan _ => True
  | _ => False

/-- The value is a finite number. -/
def Yaml.isFinite : Yaml → Bool
  | .int _ | .float (.finite _) _ => true
  | _ => false

/-- A limit that is compared with a number of hours without an exception, and is below them
if it is no finite number. -/
def Yaml.Judges (hours : ℚ) : Yaml → Prop
  | .int n => n < hours → isPrinted n = true
  | .float (.finite _) _ | .float .negInf _ => True
  | .bool b => (if b then 1 else 0) < hours
  | _ => False

/-- A number of hours is within a numeric limit exactly where it is not above it. -/
theorem Yaml.below_eq_false_iff {v : Yaml} (hv : v.isNumber) (x : ℚ) :
    v.below x = some false ↔ v.Within x := by
  cases v with
  | int n => simp [Yaml.below, Yaml.Within]
  | float m text => cases m <;> simp [Yaml.below, Yaml.Within, Magnitude.below]
  | null | bool b | str s | collection | other => simp [Yaml.isNumber] at hv

/-- `str(v)` of a number; `none` for the `ValueError` of an integer with too many digits. -/
def Yaml.text : Yaml → Option Str
  | .bool b => some (if b then lit "True" else lit "False")
  | .int n => if isPrinted n then some (decimal n) else none
  | .float _ text => some text
  | .str s => some s
  | .null | .collection | .other => some []

/-- The nearest integer, ties to even. -/
def roundHalfEven (q : ℚ) : ℤ :=
  let r := q - ⌊q⌋
  if r < 1 / 2 then ⌊q⌋
  else if 1 / 2 < r then ⌊q⌋ + 1
  else if ⌊q⌋ % 2 = 0 then ⌊q⌋
  else ⌊q⌋ + 1

/-- The nearest double of a nonnegative number, away from overflow and underflow. -/
def toDouble (x : ℚ) : ℚ :=
  let e := Int.log 2 x
  roundHalfEven (x * (2 : ℚ) ^ (52 - e)) * (2 : ℚ) ^ (e - 52)

/-- A rounded number is at most a half below. -/
theorem sub_half_le_roundHalfEven (q : ℚ) : q - 1 / 2 ≤ roundHalfEven q := by
  have hlt := Int.lt_floor_add_one q
  simp only [roundHalfEven]
  split_ifs with hdown hup heven
  · linarith
  · push_cast
    linarith
  · linarith
  · push_cast
    linarith

/-- A rounded number is at most the next integer. -/
theorem roundHalfEven_le (q : ℚ) : roundHalfEven q ≤ ⌊q⌋ + 1 := by
  simp only [roundHalfEven]
  split_ifs <;> omega

section ToDouble

variable {x : ℚ}

/-- The last place of a double is a power of two, and the mantissa counts in it. -/
theorem lastPlace_mul (x : ℚ) :
    (0 : ℚ) < 2 ^ (Int.log 2 x - 52) ∧
      (2 : ℚ) ^ (52 - Int.log 2 x) * 2 ^ (Int.log 2 x - 52) = 1 := by
  refine ⟨zpow_pos (by norm_num) _, ?_⟩
  rw [← zpow_add₀ (by norm_num)]
  norm_num

/-- The nearest double is at most a half of its last place below. -/
theorem sub_half_le_toDouble (x : ℚ) :
    x - 1 / 2 * 2 ^ (Int.log 2 x - 52) ≤ toDouble x := by
  obtain ⟨hulp, hcancel⟩ := lastPlace_mul x
  have hround := sub_half_le_roundHalfEven (x * 2 ^ (52 - Int.log 2 x))
  calc x - 1 / 2 * 2 ^ (Int.log 2 x - 52)
      = (x * 2 ^ (52 - Int.log 2 x) - 1 / 2) * 2 ^ (Int.log 2 x - 52) := by
        rw [sub_mul, mul_assoc, hcancel, mul_one]
    _ ≤ toDouble x := mul_le_mul_of_nonneg_right hround hulp.le

/-- **The nearest double** is below a positive number by no more than a half of its last place. -/
theorem le_toDouble (hx : 0 < x) : x * (1 - 1 / 9007199254740992) ≤ toDouble x := by
  have hlast : (2 : ℚ) ^ (Int.log 2 x - 52) = 2 ^ Int.log 2 x / 4503599627370496 := by
    rw [zpow_sub₀ (by norm_num)]
    norm_num
  have hlog : (2 : ℚ) ^ Int.log 2 x ≤ x := Int.zpow_log_le_self (by norm_num) hx
  calc x * (1 - 1 / 9007199254740992)
      ≤ x - 1 / 2 * 2 ^ (Int.log 2 x - 52) := by rw [hlast]; linarith
    _ ≤ toDouble x := sub_half_le_toDouble x

/-- The nearest double is no larger than the power of two above. -/
theorem toDouble_le (x : ℚ) : toDouble x ≤ 2 ^ (Int.log 2 x + 1) := by
  obtain ⟨hulp, hcancel⟩ := lastPlace_mul x
  have hlt : x * 2 ^ (52 - Int.log 2 x) < (2 ^ 53 : ℤ) := by
    have hpos : (0 : ℚ) < 2 ^ (52 - Int.log 2 x) := zpow_pos (by norm_num) _
    calc x * 2 ^ (52 - Int.log 2 x)
        < 2 ^ (Int.log 2 x + 1) * 2 ^ (52 - Int.log 2 x) :=
          mul_lt_mul_of_pos_right (Int.lt_zpow_succ_log_self (by norm_num) x) hpos
      _ = (2 ^ 53 : ℤ) := by
          rw [← zpow_add₀ (by norm_num), show Int.log 2 x + 1 + (52 - Int.log 2 x) = 53 by ring]
          norm_num
  have hround : roundHalfEven (x * 2 ^ (52 - Int.log 2 x)) ≤ 2 ^ 53 :=
    (roundHalfEven_le _).trans (Int.add_one_le_of_lt (Int.floor_lt.mpr hlt))
  calc toDouble x
      ≤ (2 ^ 53 : ℤ) * 2 ^ (Int.log 2 x - 52) :=
        mul_le_mul_of_nonneg_right (by exact_mod_cast hround) hulp.le
    _ = 2 ^ (Int.log 2 x + 1) := by
        rw [show Int.log 2 x + 1 = 53 + (Int.log 2 x - 52) by ring, zpow_add₀ (by norm_num)]
        norm_num

/-- A rounded number is at most an integer that the number is at most. -/
theorem roundHalfEven_le_of_le {q : ℚ} {n : ℤ} (h : q ≤ n) : roundHalfEven q ≤ n := by
  have hfloor : ⌊q⌋ ≤ n := Int.cast_le.mp ((Int.floor_le q).trans h)
  simp only [roundHalfEven]
  rcases lt_or_eq_of_le hfloor with hlt | heq
  · split_ifs <;> omega
  · have hself : q - ⌊q⌋ < 1 / 2 := by
      rw [heq]
      linarith
    rw [if_pos hself]
    exact hfloor

/-- **A double is at most an integer** that the number is at most, where the integers are
doubles. -/
theorem toDouble_le_intCast {n : ℤ} (hn : n < 9007199254740992) (h : x ≤ n) :
    toDouble x ≤ n := by
  obtain ⟨hulp, hcancel⟩ := lastPlace_mul x
  have hlog : Int.log 2 x ≤ 52 := by
    by_cases hx : 0 < x
    · refine Int.lt_add_one_iff.mp ((Int.lt_zpow_iff_log_lt (by norm_num) hx).mp ?_)
      calc x ≤ n := h
        _ < 9007199254740992 := by exact_mod_cast hn
        _ = ((2 : ℕ) : ℚ) ^ (52 + 1 : ℤ) := by norm_num
    · rw [Int.log_of_right_le_zero _ (not_lt.mp hx)]
      norm_num
  obtain ⟨k, hk⟩ := Int.le.dest hlog
  have hplaces : (2 : ℚ) ^ (52 - Int.log 2 x) = ((2 ^ k : ℤ) : ℚ) := by
    rw [show 52 - Int.log 2 x = (k : ℤ) by omega]
    norm_num
  have hround : roundHalfEven (x * 2 ^ (52 - Int.log 2 x)) ≤ n * 2 ^ k := by
    refine roundHalfEven_le_of_le ?_
    rw [hplaces, Int.cast_mul]
    exact mul_le_mul_of_nonneg_right h (by positivity)
  calc toDouble x
      ≤ ((n * 2 ^ k : ℤ) : ℚ) * 2 ^ (Int.log 2 x - 52) :=
        mul_le_mul_of_nonneg_right (by exact_mod_cast hround) hulp.le
    _ = n := by rw [Int.cast_mul, ← hplaces, mul_assoc, hcancel, mul_one]

/-- **A double above an integer** is above it by its last place, where the integers are
doubles. -/
theorem add_le_toDouble {k : ℤ} (hlog : Int.log 2 x ≤ 52) (h : (k : ℚ) < toDouble x) :
    k + (2 : ℚ) ^ (Int.log 2 x - 52) ≤ toDouble x := by
  obtain ⟨hulp, hcancel⟩ := lastPlace_mul x
  obtain ⟨n, hn⟩ := Int.le.dest hlog
  have hplaces : (2 : ℚ) ^ (52 - Int.log 2 x) = ((2 ^ n : ℤ) : ℚ) := by
    rw [show 52 - Int.log 2 x = (n : ℤ) by omega]
    norm_num
  rw [hplaces] at hcancel
  have hk : (k : ℚ) = ((k * 2 ^ n : ℤ) : ℚ) * 2 ^ (Int.log 2 x - 52) := by
    rw [Int.cast_mul, mul_assoc, hcancel, mul_one]
  unfold toDouble at h ⊢
  dsimp only at h ⊢
  rw [hk] at h ⊢
  have hlt := Int.cast_lt.mp (lt_of_mul_lt_mul_right h hulp.le)
  calc ((k * 2 ^ n : ℤ) : ℚ) * 2 ^ (Int.log 2 x - 52) + 2 ^ (Int.log 2 x - 52)
      = ((k * 2 ^ n + 1 : ℤ) : ℚ) * 2 ^ (Int.log 2 x - 52) := by
        rw [Int.cast_add, Int.cast_one, add_mul, one_mul]
    _ ≤ roundHalfEven (x * 2 ^ (52 - Int.log 2 x)) * 2 ^ (Int.log 2 x - 52) :=
        mul_le_mul_of_nonneg_right (Int.cast_le.mpr (Int.add_one_le_of_lt hlt)) hulp.le

end ToDouble

/-- Digits with a point behind the first `n`, the trailing zeros of the fraction dropped. -/
def pointAt (n : ℕ) (digits : Str) : Str :=
  let fraction := ((digits.drop n).reverse.dropWhile fun d => d = ofChar '0').reverse
  digits.take n ++ if fraction = [] then [] else ofChar '.' :: fraction

/-- `f"{x:g}"` of a nonnegative number: six significant digits. -/
def formatG (x : ℚ) : Str :=
  if x = 0 then lit "0"
  else
    let e := Int.log 10 x
    let m := roundHalfEven (x * (10 : ℚ) ^ (5 - e))
    let (m, e) := if m = 1000000 then (100000, e + 1) else (m, e)
    let digits := decimal m
    if e < -4 ∨ 6 ≤ e then
      let exponent := decimalNat e.natAbs
      pointAt 1 digits ++ lit (if e < 0 then "e-" else "e+") ++
        List.replicate (2 - exponent.length) (ofChar '0') ++ exponent
    else if 0 ≤ e then pointAt (e.toNat + 1) digits
    else pointAt 1 (List.replicate e.natAbs (ofChar '0') ++ digits)

end Python
