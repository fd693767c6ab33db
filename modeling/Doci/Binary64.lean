import Mathlib.Algebra.Order.Round
import Mathlib.Data.Int.Log
import Mathlib.Data.Rat.Floor
import Mathlib.Tactic

/-! Numbers of 53 binary digits and bounded exponents as rationals, rounding to the nearest of them,
and the arithmetic of the format with its infinities. -/

namespace Binary64

section Integers

/-- The nearest integer, of two the even one. -/
def nearestEven (q : ℚ) : ℤ :=
  if q - ⌊q⌋ < 1 / 2 then ⌊q⌋ else if 1 / 2 < q - ⌊q⌋ then ⌊q⌋ + 1 else ⌊q⌋ + ⌊q⌋ % 2

@[simp] theorem nearestEven_intCast (n : ℤ) : nearestEven n = n := by
  simp [nearestEven]

theorem abs_nearestEven_sub (q : ℚ) : |nearestEven q - q| ≤ 1 / 2 := by
  have hlow := Int.floor_le q
  have hhigh := Int.lt_floor_add_one q
  unfold nearestEven
  split_ifs with hbelow habove
  · rw [abs_le]
    constructor <;> linarith
  · push_cast
    rw [abs_le]
    constructor <;> linarith
  · have hzero : (0 : ℚ) ≤ (⌊q⌋ % 2 : ℤ) := by
      exact_mod_cast Int.emod_nonneg ⌊q⌋ two_ne_zero
    have hone : ((⌊q⌋ % 2 : ℤ) : ℚ) ≤ 1 := by
      exact_mod_cast Int.le_of_lt_add_one (Int.emod_lt_of_pos ⌊q⌋ two_pos)
    push_cast at *
    rw [abs_le]
    constructor <;> linarith

theorem nearestEven_mono {q r : ℚ} (h : q ≤ r) : nearestEven q ≤ nearestEven r := by
  obtain ⟨_, hq⟩ := abs_le.mp (abs_nearestEven_sub q)
  obtain ⟨hr, _⟩ := abs_le.mp (abs_nearestEven_sub r)
  by_contra hlt
  have hstep : (nearestEven r : ℚ) + 1 ≤ nearestEven q := by exact_mod_cast not_le.mp hlt
  -- two integers apart would need a half on either side of one number
  have hsame : q = r := by linarith
  rw [hsame] at hlt
  exact hlt le_rfl

theorem nearestEven_le {q : ℚ} {n : ℤ} (h : q ≤ n) : nearestEven q ≤ n :=
  (nearestEven_mono h).trans_eq (nearestEven_intCast n)

theorem le_nearestEven {q : ℚ} {n : ℤ} (h : n ≤ q) : n ≤ nearestEven q :=
  (nearestEven_intCast n).symm.trans_le (nearestEven_mono h)

theorem nearestEven_neg (q : ℚ) : nearestEven (-q) = -nearestEven q := by
  by_cases hint : q = ⌊q⌋
  · rw [hint]
    have hneg : nearestEven ((-⌊q⌋ : ℤ) : ℚ) = -⌊q⌋ := nearestEven_intCast _
    rw [← Int.cast_neg, hneg, nearestEven_intCast]
  · have hfloor : ⌊-q⌋ = -⌊q⌋ - 1 := by
      rw [Int.floor_eq_iff]
      have hlow := lt_of_le_of_ne (Int.floor_le q) (Ne.symm hint)
      have hhigh := Int.lt_floor_add_one q
      push_cast
      constructor <;> linarith
    unfold nearestEven
    rw [hfloor]
    push_cast
    split_ifs <;> first | omega | (exfalso; linarith)

end Integers

section Rounding

/-- The exponent of the last place at a magnitude: 53 digits from the first one on, as far as the
smallest exponent lets. -/
def place (q : ℚ) : ℤ := max (Int.log 2 |q| - 52) (-1074)

def unit (q : ℚ) : ℚ := 2 ^ place q

/-- The nearest number with that last place. -/
def nearest (q : ℚ) : ℚ := nearestEven (q / unit q) * unit q

variable {q r : ℚ}

theorem unit_pos (q : ℚ) : 0 < unit q := zpow_pos two_pos _

theorem place_neg (q : ℚ) : place (-q) = place q := by
  rw [place, place, abs_neg]

theorem unit_neg (q : ℚ) : unit (-q) = unit q := by
  rw [unit, unit, place_neg]

theorem nearest_neg (q : ℚ) : nearest (-q) = -nearest q := by
  rw [nearest, nearest, unit_neg, neg_div, nearestEven_neg, Int.cast_neg, neg_mul]

@[simp] theorem nearest_zero : nearest 0 = 0 := by
  have hzero : nearestEven 0 = 0 := by exact_mod_cast nearestEven_intCast 0
  rw [nearest, zero_div, hzero, Int.cast_zero, zero_mul]

theorem abs_nearest_sub (q : ℚ) : |nearest q - q| ≤ unit q / 2 := by
  have hunit := unit_pos q
  have hscaled : nearest q - q = (nearestEven (q / unit q) - q / unit q) * unit q := by
    rw [nearest, sub_mul, div_mul_cancel₀ q hunit.ne']
  rw [hscaled, abs_mul, abs_of_pos hunit]
  calc |(nearestEven (q / unit q) : ℚ) - q / unit q| * unit q
      ≤ 1 / 2 * unit q := by gcongr; exact abs_nearestEven_sub _
    _ = unit q / 2 := by ring

/-- A rounded number that is not zero is within half of the number. -/
theorem abs_nearest_sub_le (h : nearest q ≠ 0) : |nearest q - q| ≤ |nearest q| / 2 := by
  have hunit := unit_pos q
  have hint : nearestEven (q / unit q) ≠ 0 := by
    intro hzero
    rw [nearest, hzero, Int.cast_zero, zero_mul] at h
    exact h rfl
  have hone : (1 : ℚ) ≤ |(nearestEven (q / unit q) : ℚ)| := by
    exact_mod_cast Int.one_le_abs hint
  have hle : unit q ≤ |nearest q| := by
    rw [nearest, abs_mul, abs_of_pos hunit]
    exact le_mul_of_one_le_left hunit.le hone
  have herror := abs_nearest_sub q
  linarith

theorem nearest_le {n : ℤ} (h : q ≤ n * unit q) : nearest q ≤ n * unit q := by
  have hdiv : q / unit q ≤ n := (div_le_iff₀ (unit_pos q)).mpr h
  have hcast : (nearestEven (q / unit q) : ℚ) ≤ n := by exact_mod_cast nearestEven_le hdiv
  exact mul_le_mul_of_nonneg_right hcast (unit_pos q).le

theorem le_nearest {n : ℤ} (h : n * unit q ≤ q) : n * unit q ≤ nearest q := by
  have hdiv : n ≤ q / unit q := (le_div_iff₀ (unit_pos q)).mpr h
  have hcast : (n : ℚ) ≤ nearestEven (q / unit q) := by exact_mod_cast le_nearestEven hdiv
  exact mul_le_mul_of_nonneg_right hcast (unit_pos q).le

theorem nearest_nonneg (h : 0 ≤ q) : 0 ≤ nearest q := by
  have hle := le_nearest (q := q) (n := 0) (by simpa using h)
  simpa using hle

theorem place_mono (hq : q ≠ 0) (h : |q| ≤ |r|) : place q ≤ place r := by
  have hlog := Int.log_mono_right (b := 2) (abs_pos.mpr hq) h
  unfold place
  omega

theorem abs_lt_zpow (q : ℚ) : |q| < 2 ^ (Int.log 2 |q| + 1) := by
  exact_mod_cast Int.lt_zpow_succ_log_self (b := 2) Nat.one_lt_two |q|

theorem zpow_le_abs (hq : q ≠ 0) : 2 ^ Int.log 2 |q| ≤ |q| := by
  exact_mod_cast Int.zpow_log_le_self (b := 2) Nat.one_lt_two (abs_pos.mpr hq)

/-- A power of two is a multiple of the smaller ones. -/
theorem zpow_eq_mul_unit {k : ℤ} (h : place q ≤ k) :
    (2 : ℚ) ^ k = ((2 ^ (k - place q).toNat : ℤ) : ℚ) * unit q := by
  have hexp : ((k - place q).toNat : ℤ) + place q = k := by omega
  rw [unit, Int.cast_pow, Int.cast_ofNat, ← zpow_natCast, ← zpow_add₀ two_ne_zero, hexp]

theorem nearest_mono_nonneg (hq : 0 ≤ q) (h : q ≤ r) : nearest q ≤ nearest r := by
  rcases hq.eq_or_lt with rfl | hpos
  · rw [nearest_zero]
    exact nearest_nonneg h
  have habs : |q| ≤ |r| := by rwa [abs_of_pos hpos, abs_of_pos (hpos.trans_le h)]
  rcases (place_mono hpos.ne' habs).eq_or_lt with hsame | hlt
  · have hunit : unit q = unit r := by rw [unit, unit, hsame]
    have hmono : nearestEven (q / unit q) ≤ nearestEven (r / unit r) := by
      rw [hunit]
      exact nearestEven_mono (div_le_div_of_nonneg_right h (unit_pos r).le)
    have hcast : (nearestEven (q / unit q) : ℚ) ≤ nearestEven (r / unit r) := by exact_mod_cast hmono
    rw [nearest, nearest, ← hunit]
    rw [← hunit] at hcast
    exact mul_le_mul_of_nonneg_right hcast (unit_pos q).le
  · -- a power of two lies between them
    have hlog : Int.log 2 |q| + 1 ≤ Int.log 2 |r| ∧ place q ≤ Int.log 2 |r| ∧
        place r ≤ Int.log 2 |r| := by
      unfold place at *
      omega
    have hrpos := hpos.trans_le h
    have hup : q ≤ 2 ^ Int.log 2 |r| := by
      rw [← abs_of_pos hpos]
      exact (abs_lt_zpow q).le.trans (zpow_le_zpow_right₀ one_le_two hlog.1)
    have hdown : (2 : ℚ) ^ Int.log 2 |r| ≤ r := by
      have hle := zpow_le_abs hrpos.ne'
      rwa [abs_of_pos hrpos] at hle ⊢
    rw [zpow_eq_mul_unit hlog.2.1] at hup
    rw [zpow_eq_mul_unit hlog.2.2] at hdown
    calc nearest q ≤ 2 ^ Int.log 2 |r| := by
          rw [zpow_eq_mul_unit hlog.2.1]
          exact nearest_le hup
      _ ≤ nearest r := by
          rw [zpow_eq_mul_unit hlog.2.2]
          exact le_nearest hdown

theorem nearest_mono (h : q ≤ r) : nearest q ≤ nearest r := by
  rcases le_total 0 q with hq | hq
  · exact nearest_mono_nonneg hq h
  rcases le_total 0 r with hr | hr
  · have hneg := nearest_nonneg (q := -q) (by linarith)
    rw [nearest_neg] at hneg
    exact (neg_nonneg.mp hneg).trans (nearest_nonneg hr)
  · have hneg := nearest_mono_nonneg (q := -r) (r := -q) (by linarith) (by linarith)
    rw [nearest_neg, nearest_neg] at hneg
    exact neg_le_neg_iff.mp hneg

/-- Of normal numbers the rounding is a small part. -/
theorem abs_nearest_sub_normal (h : 2 ^ (-1022 : ℤ) ≤ |q|) : |nearest q - q| ≤ |q| * 2 ^ (-53 : ℤ) := by
  have hpos : 0 < |q| := (zpow_pos two_pos _).trans_le h
  have hlog : -1022 ≤ Int.log 2 |q| := by
    exact (Int.zpow_le_iff_le_log (b := 2) Nat.one_lt_two hpos).mp (by exact_mod_cast h)
  have hplace : place q = Int.log 2 |q| - 52 := by
    unfold place
    omega
  have hunit : unit q / 2 = 2 ^ Int.log 2 |q| * 2 ^ (-53 : ℤ) := by
    rw [unit, hplace, ← zpow_add₀ two_ne_zero, div_eq_mul_inv, ← zpow_neg_one, ← zpow_add₀ two_ne_zero]
    congr 1
    omega
  calc |nearest q - q| ≤ unit q / 2 := abs_nearest_sub q
    _ = 2 ^ Int.log 2 |q| * 2 ^ (-53 : ℤ) := hunit
    _ ≤ |q| * 2 ^ (-53 : ℤ) := by
        gcongr
        exact zpow_le_abs (abs_pos.mp hpos)

theorem abs_nearest_le (h : 2 ^ (-1022 : ℤ) ≤ |q|) : |nearest q| ≤ |q| * (1 + 2 ^ (-53 : ℤ)) := by
  have herror := abs_nearest_sub_normal h
  have hsum := abs_add_le (nearest q - q) q
  rw [sub_add_cancel] at hsum
  linarith

theorem le_abs_nearest (h : 2 ^ (-1022 : ℤ) ≤ |q|) : |q| * (1 - 2 ^ (-53 : ℤ)) ≤ |nearest q| := by
  have herror := abs_nearest_sub_normal h
  have hsum := abs_sub_abs_le_abs_sub q (nearest q)
  rw [abs_sub_comm] at hsum
  linarith

/-- The digits before the last place are 53 at most. -/
theorem abs_lt_unit (q : ℚ) : |q| < 2 ^ 53 * unit q := by
  have hplace : Int.log 2 |q| + 1 ≤ 53 + place q := by
    unfold place
    omega
  calc |q| < 2 ^ (Int.log 2 |q| + 1) := abs_lt_zpow q
    _ ≤ 2 ^ (53 + place q) := zpow_le_zpow_right₀ one_le_two hplace
    _ = 2 ^ 53 * unit q := by
        rw [zpow_add₀ two_ne_zero]
        rfl

/-- A number of 53 digits is not rounded. -/
theorem nearest_of_digits {m k : ℤ} (hm : |m| < 2 ^ 53) (hk : -1074 ≤ k) :
    nearest (m * 2 ^ k) = m * 2 ^ k := by
  by_cases hzero : m = 0
  · simp [hzero]
  have hpos : (0 : ℚ) < 2 ^ k := zpow_pos two_pos k
  have habs : |(m : ℚ) * 2 ^ k| = (|m| : ℤ) * 2 ^ k := by
    rw [abs_mul, abs_of_pos hpos, Int.cast_abs]
  have hplace : place ((m : ℚ) * 2 ^ k) ≤ k := by
    have hlt : |(m : ℚ) * 2 ^ k| < 2 ^ (53 + k) := by
      rw [habs, zpow_add₀ two_ne_zero]
      exact mul_lt_mul_of_pos_right (by exact_mod_cast hm) hpos
    have hne : 0 < |(m : ℚ) * 2 ^ k| := abs_pos.mpr (mul_ne_zero (Int.cast_ne_zero.mpr hzero) hpos.ne')
    have hlog := (Int.lt_zpow_iff_log_lt (b := 2) Nat.one_lt_two hne).mp (by exact_mod_cast hlt)
    unfold place
    omega
  have hint : (m : ℚ) * 2 ^ k =
      ((m * 2 ^ (k - place ((m : ℚ) * 2 ^ k)).toNat : ℤ) : ℚ) * unit ((m : ℚ) * 2 ^ k) := by
    rw [Int.cast_mul, mul_assoc, ← zpow_eq_mul_unit hplace]
  exact le_antisymm ((nearest_le hint.le).trans hint.ge) (hint.le.trans (le_nearest hint.ge))

theorem nearest_nearest (q : ℚ) : nearest (nearest q) = nearest q := by
  have hplace : -1074 ≤ place q := le_max_right _ _
  obtain ⟨hlow, hhigh⟩ := abs_lt.mp (abs_lt_unit q)
  have hup : nearestEven (q / unit q) ≤ 2 ^ 53 := by
    refine nearestEven_le ?_
    push_cast
    exact ((div_lt_iff₀ (unit_pos q)).mpr hhigh).le
  have hdown : -2 ^ 53 ≤ nearestEven (q / unit q) := by
    refine le_nearestEven ?_
    push_cast
    exact ((lt_div_iff₀ (unit_pos q)).mpr (by rwa [neg_mul])).le
  have hpow : (2 : ℚ) ^ 53 * 2 ^ place q = 1 * 2 ^ (53 + place q) := by
    rw [one_mul, zpow_add₀ two_ne_zero]
    rfl
  have hone := @nearest_of_digits 1 (53 + place q) (by norm_num) (by omega)
  rw [Int.cast_one, ← hpow] at hone
  have hnearest : nearest q = nearestEven (q / unit q) * 2 ^ place q := rfl
  rw [hnearest]
  rcases hup.eq_or_lt with hup | hup
  · rwa [hup, Int.cast_pow, Int.cast_ofNat]
  rcases hdown.eq_or_lt with hdown | hdown
  · rw [← hdown, Int.cast_neg, Int.cast_pow, Int.cast_ofNat, neg_mul, nearest_neg, hone]
  · exact nearest_of_digits (abs_lt.mpr ⟨hdown, hup⟩) hplace

/-- A number of the format. -/
def IsDouble (q : ℚ) : Prop := nearest q = q ∧ |q| < 2 ^ 1024

instance : DecidablePred IsDouble := fun _ => inferInstanceAs (Decidable (_ ∧ _))

theorem IsDouble.neg (h : IsDouble q) : IsDouble (-q) :=
  ⟨by rw [nearest_neg, h.1], by rw [abs_neg]; exact h.2⟩

theorem IsDouble.abs (h : IsDouble q) : IsDouble |q| := by
  rcases abs_choice q with hq | hq
  · rwa [hq]
  · rw [hq]
    exact h.neg

/-- The numbers of the format are those of 53 digits before a last place within its bounds. -/
theorem isDouble_iff :
    IsDouble q ↔ ∃ m k : ℤ, |m| < 2 ^ 53 ∧ -1074 ≤ k ∧ k ≤ 971 ∧ q = m * 2 ^ k := by
  constructor
  · rintro ⟨hnearest, hbound⟩
    refine ⟨nearestEven (q / unit q), place q, ?_, le_max_right _ _, ?_, hnearest.symm⟩
    · have hlt : |(nearestEven (q / unit q) : ℚ)| * unit q < 2 ^ 53 * unit q := by
        rw [← abs_of_pos (unit_pos q), ← abs_mul, abs_of_pos (unit_pos q)]
        show |nearest q| < _
        rw [hnearest]
        exact abs_lt_unit q
      exact_mod_cast lt_of_mul_lt_mul_right hlt (unit_pos q).le
    · by_cases hzero : q = 0
      · rw [hzero]
        decide +kernel
      · have hlog := (Int.lt_zpow_iff_log_lt (b := 2) (x := 1024) Nat.one_lt_two
          (abs_pos.mpr hzero)).mp (by exact_mod_cast hbound)
        unfold place
        omega
  · rintro ⟨m, k, hm, hlow, hhigh, rfl⟩
    refine ⟨nearest_of_digits hm hlow, ?_⟩
    have hpos : (0 : ℚ) < 2 ^ k := zpow_pos two_pos k
    rw [abs_mul, abs_of_pos hpos]
    calc |(m : ℚ)| * 2 ^ k < 2 ^ 53 * 2 ^ k :=
          mul_lt_mul_of_pos_right (by exact_mod_cast hm) hpos
      _ ≤ 2 ^ 53 * 2 ^ (971 : ℤ) := by
          gcongr
          exact one_le_two
      _ = 2 ^ 1024 := by rw [zpow_ofNat, ← pow_add]

theorem isDouble_intCast {n : ℤ} (h : |n| < 2 ^ 53) : IsDouble n :=
  isDouble_iff.mpr ⟨n, 0, h, by decide, by decide, by simp⟩

theorem isDouble_zero : IsDouble 0 := by
  exact_mod_cast isDouble_intCast (n := 0) (by decide)

theorem isDouble_one : IsDouble 1 := by
  exact_mod_cast isDouble_intCast (n := 1) (by decide)

end Rounding

section Doubles

/-- The two zeros are one. -/
inductive Double where
  | finite (q : ℚ) (h : IsDouble q)
  | inf (negative : Bool)
  | nan
  deriving DecidableEq

namespace Double

/-- The nearest double; from the middle between the largest one and the next power of two on it is
infinite. -/
def round (q : ℚ) : Double :=
  if h : |nearest q| < 2 ^ 1024 then .finite (nearest q) ⟨nearest_nearest q, h⟩
  else .inf (decide (q < 0))

def neg : Double → Double
  | finite q h => .finite (-q) h.neg
  | inf negative => .inf !negative
  | nan => .nan

def abs : Double → Double
  | finite q h => .finite |q| h.abs
  | inf _ => .inf false
  | nan => .nan

def sub : Double → Double → Double
  | finite q _, finite r _ => round (q - r)
  | finite _ _, inf negative => .inf !negative
  | inf negative, finite _ _ => .inf negative
  | inf negative, inf negative' => if negative = negative' then .nan else .inf negative
  | _, _ => .nan

def mul : Double → Double → Double
  | finite q _, finite r _ => round (q * r)
  | finite q _, inf negative => if q = 0 then .nan else .inf (negative ^^ decide (q < 0))
  | inf negative, finite r _ => if r = 0 then .nan else .inf (negative ^^ decide (r < 0))
  | inf negative, inf negative' => .inf (negative ^^ negative')
  | _, _ => .nan

/-- The value, where there is one. -/
def value? : Double → Option ℚ
  | finite q _ => some q
  | _ => none

/-- Division by a positive number. -/
def divNat (x : Double) (n : ℕ) : Double :=
  match x with
  | finite q _ => round (q / n)
  | inf negative => .inf negative
  | nan => .nan

def lt : Double → Double → Bool
  | finite q _, finite r _ => q < r
  | finite _ _, inf negative => !negative
  | inf negative, finite _ _ => negative
  | inf negative, inf negative' => negative && !negative'
  | _, _ => false

def le : Double → Double → Bool
  | finite q _, finite r _ => q ≤ r
  | finite _ _, inf negative => !negative
  | inf negative, finite _ _ => negative
  | inf negative, inf negative' => negative || !negative'
  | _, _ => false

variable {q : ℚ} {x y : Double}

theorem round_of_isDouble (h : IsDouble q) : round q = .finite q h := by
  have hbound : |nearest q| < 2 ^ 1024 := by
    rw [h.1]
    exact h.2
  rw [round, dif_pos hbound]
  simp only [h.1]

theorem round_eq_finite {r : ℚ} {h : IsDouble r} (hround : round q = .finite r h) : nearest q = r := by
  unfold round at hround
  split_ifs at hround
  exact (Double.finite.inj hround)

theorem round_finite (h : |nearest q| < 2 ^ 1024) :
    round q = .finite (nearest q) ⟨nearest_nearest q, h⟩ := dif_pos h

/-- A smaller magnitude is finite where a larger one is. -/
theorem nearest_lt_of_abs_le {r : ℚ} (hr : IsDouble r) (h : |q| ≤ |r|) : |nearest q| < 2 ^ 1024 := by
  obtain ⟨hlow, hhigh⟩ := abs_le.mp h
  have hup := nearest_mono hhigh
  have hdown := nearest_mono hlow
  rw [nearest_neg] at hdown
  rw [hr.abs.1] at hup hdown
  exact (abs_le.mpr ⟨hdown, hup⟩).trans_lt hr.2

theorem round_neg (q : ℚ) : round (-q) = neg (round q) := by
  unfold round
  have hiff : |nearest (-q)| < 2 ^ 1024 ↔ |nearest q| < 2 ^ 1024 := by rw [nearest_neg, abs_neg]
  by_cases h : |nearest q| < 2 ^ 1024
  · rw [dif_pos h, dif_pos (hiff.mpr h)]
    simp only [neg, nearest_neg]
  · rw [dif_neg h, dif_neg (mt hiff.mp h)]
    have hne : q ≠ 0 := by
      rintro rfl
      simp at h
    have hsign : decide (-q < 0) = !decide (q < 0) := by
      rcases hne.lt_or_gt with hlt | hgt
      · simp [hlt, hlt.le]
      · simp [hgt, hgt.le]
    simp only [neg, hsign]

@[simp] theorem abs_neg (x : Double) : abs (neg x) = abs x := by
  cases x <;> simp [neg, abs]

theorem abs_round_of_nonneg (h : 0 ≤ q) : abs (round q) = round q := by
  by_cases hbound : |nearest q| < 2 ^ 1024
  · rw [round_finite hbound]
    simp only [abs, abs_of_nonneg (nearest_nonneg h)]
  · rw [round, dif_neg hbound]
    simp [abs, not_lt.mpr h]

theorem abs_round (q : ℚ) : abs (round q) = round |q| := by
  rcases le_total 0 q with hpos | hneg
  · rw [abs_of_nonneg hpos, abs_round_of_nonneg hpos]
  · rw [abs_of_nonpos hneg, ← abs_neg, ← round_neg, abs_round_of_nonneg (neg_nonneg.mpr hneg)]

theorem finite_one_mul (x : Double) : mul (.finite 1 isDouble_one) x = x := by
  cases x with
  | finite q h => simp only [mul, one_mul, round_of_isDouble h]
  | inf negative =>
    have hsign : ¬ (1 : ℚ) < 0 := by norm_num
    simp [mul, hsign]
  | nan => rfl

theorem mul_neg_left (x y : Double) : mul (neg x) y = neg (mul x y) := by
  cases x with
  | nan => rfl
  | inf negative =>
    cases y with
    | nan => rfl
    | inf negative' => simp [mul, neg]
    | finite r hr =>
      simp only [mul, neg]
      split_ifs
      · rfl
      · simp
  | finite q hq =>
    cases y with
    | nan => rfl
    | inf negative =>
      by_cases hzero : q = 0
      · simp [mul, neg, hzero]
      · have hsign : decide (-q < 0) = !decide (q < 0) := by
          rcases Ne.lt_or_gt hzero with hlt | hgt
          · simp [hlt, hlt.le]
          · simp [hgt, hgt.le]
        have hneg : -q ≠ 0 := neg_ne_zero.mpr hzero
        simp only [mul, neg, hzero, hneg, if_false, hsign, Bool.xor_not]
    | finite r hr => simp only [mul, neg, neg_mul, round_neg]

theorem divNat_neg (x : Double) (n : ℕ) : divNat (neg x) n = neg (divNat x n) := by
  cases x with
  | finite q hq => simp only [divNat, neg, neg_div, round_neg]
  | inf negative => rfl
  | nan => rfl

theorem sub_neg_neg (x y : Double) : sub (neg x) (neg y) = neg (sub x y) := by
  cases x <;> cases y <;> try rfl
  case finite.finite q _ r _ =>
    have hsub : -q - -r = -(q - r) := by ring
    simp only [sub, neg, hsub, round_neg]
  case inf.inf negative negative' =>
    cases negative <;> cases negative' <;> rfl

end Double

end Doubles

/-- What a program does with its floats, to be read over doubles or over exact numbers. `ofInt` fails
where an int is too large. -/
class FloatOps (α : Type) where
  ofRat : ℚ → α
  ofInt : ℤ → Option α
  neg : α → α
  abs : α → α
  sub : α → α → α
  mul : α → α → α
  divNat : α → ℕ → α
  lt : α → α → Bool
  le : α → α → Bool

instance : FloatOps Double where
  ofRat := Double.round
  ofInt n := match Double.round n with
    | .finite q h => some (.finite q h)
    | _ => none
  neg := Double.neg
  abs := Double.abs
  sub := Double.sub
  mul := Double.mul
  divNat := Double.divNat
  lt := Double.lt
  le := Double.le

instance : FloatOps ℚ where
  ofRat := id
  ofInt n := some n
  neg q := -q
  abs q := |q|
  sub q r := q - r
  mul q r := q * r
  divNat q n := q / n
  lt q r := q < r
  le q r := q ≤ r

end Binary64
