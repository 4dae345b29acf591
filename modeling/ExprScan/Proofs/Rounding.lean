import ExprScan.Number.Shortest
import Mathlib.Algebra.Order.Field.Basic
import Mathlib.Algebra.Order.Ring.Abs
import Mathlib.Data.Rat.Cast.Order
import Mathlib.Tactic.FieldSimp
import Mathlib.Tactic.Linarith
import Mathlib.Tactic.NormNum
import Mathlib.Tactic.Ring

/-! # Rounding to the nearest value

  A ratio becomes the floating-point value nearest to it, and of two that are
  equally near the one with the even significand (`Binary64.Rounds`). At most
  one value is the rounding of a number (`Binary64.Rounds.unique`), and the
  arithmetic on naturals finds it (`Binary64.rounds_ofRatio`).

  All sizes are counted in least positive values, so the values from zero
  upwards have natural sizes (`Binary64.sizeAt`), which grow with the bits.
  Beyond infinity the binades are thought to go on, so a ratio of any size has a
  nearest point, and only then the range is cut off.

  A ratio is rounded on the grid of its own binade. A point above that binade
  is on the grid too, so it is no nearer than the nearest multiple of the unit;
  a point below the binade is farther away than the start of the binade, which
  is on the grid (`Binary64.nearest_of_grid`). So ties happen on the grid alone,
  where the even multiple is taken.
-/

namespace ExprScan

namespace Binary64

/-! ### The numbers that values stand for -/

/-- The size of a finite value. -/
def size (x : Binary64) : ℚ := x.magnitude.significand * 2 ^ x.magnitude.unit

/-- The number that a finite value stands for. -/
def number (x : Binary64) : ℚ := if x.isNegative then -x.size else x.size

/-- A value that is neither infinite nor a NaN. -/
def IsFinite (x : Binary64) : Prop := x.isNaN = false ∧ x.isInfinite = false

/-- A value is what a number is rounded to. From half a unit above the greatest finite value on,
    that is infinity. Below, it is the nearest finite value of either sign, and of two that are
    equally near, the one with the even significand. -/
structure Rounds (x : Binary64) (q : ℚ) : Prop where
  not_negative : x.isNegative = false
  not_nan : x.isNaN = false
  eq_infinity_iff : x = infinity ↔ 2 ^ 1024 - 2 ^ 970 ≤ q
  nearest : x ≠ infinity → ∀ y : Binary64, y.IsFinite → |q - x.number| ≤ |q - y.number|
  even_of_tie : x ≠ infinity → ∀ y : Binary64, y.IsFinite → y.number ≠ x.number →
    |q - y.number| = |q - x.number| → x.magnitude.significand % 2 = 0

/-! ### Sizes in least positive values -/

/-- The size of the value with some ordinal, counted in least positive values. The binades go on
    above the ordinal of infinity. -/
def sizeAt (n : ℕ) : ℕ :=
  if n / binade = 0 then n else (binade + n % binade) * 2 ^ (n / binade - 1)

theorem sizeAt_zero : sizeAt 0 = 0 := rfl

theorem binade_eq : binade = 2 ^ 52 := rfl

theorem binade_pos : 0 < binade := by decide

/-- A significand stands as many binades above itself as its unit is above the least one, also
    when it fills its binade. -/
theorem sizeAt_add {k s : ℕ} (hs : s ≤ 2 * binade) (hk : k = 0 ∨ binade ≤ s) :
    sizeAt (k * binade + s) = s * 2 ^ k := by
  have hpos := binade_pos
  unfold sizeAt
  by_cases hsmall : s < binade
  · -- Only the first binade has significands this small.
    have hzero : k = 0 := by omega
    rw [hzero, Nat.zero_mul, Nat.zero_add, if_pos (Nat.div_eq_of_lt hsmall), Nat.pow_zero,
      Nat.mul_one]
  · obtain ⟨t, rfl⟩ := Nat.exists_eq_add_of_le (Nat.le_of_not_lt hsmall)
    have hsum : k * binade + (binade + t) = t + binade * (k + 1) := by
      rw [Nat.mul_comm, Nat.mul_succ]
      omega
    rw [hsum, Nat.add_mul_div_left _ _ hpos, Nat.add_mul_mod_self_left]
    by_cases hfull : t = binade
    · rw [hfull, Nat.div_self hpos, Nat.mod_self, if_neg (by omega),
        show 1 + (k + 1) - 1 = k + 1 by omega, Nat.pow_succ]
      ring
    · have ht : t < binade := by omega
      rw [Nat.div_eq_of_lt ht, Nat.mod_eq_of_lt ht, if_neg (by omega),
        show 0 + (k + 1) - 1 = k by omega]

/-- Each ordinal is a significand in a binade. -/
theorem exists_ordinal_eq (n : ℕ) :
    ∃ k s, n = k * binade + s ∧ s < 2 * binade ∧ (k = 0 ∨ binade ≤ s) := by
  have hpos := binade_pos
  by_cases hfirst : n < binade
  · exact ⟨0, n, by omega, by omega, Or.inl rfl⟩
  · have hmod := Nat.mod_lt n hpos
    have hdiv : 0 < n / binade := Nat.div_pos (Nat.le_of_not_lt hfirst) hpos
    obtain ⟨k, hk⟩ : ∃ k, n / binade = k + 1 := ⟨n / binade - 1, by omega⟩
    have hsplit := Nat.div_add_mod n binade
    rw [hk, Nat.mul_succ, Nat.mul_comm] at hsplit
    exact ⟨k, binade + n % binade, by omega, by omega, Or.inr (Nat.le_add_right _ _)⟩

/-- A greater ordinal stands for a greater value. -/
theorem strictMono_sizeAt : StrictMono sizeAt := by
  apply strictMono_nat_of_lt_succ
  intro n
  obtain ⟨k, s, rfl, hs, hk⟩ := exists_ordinal_eq n
  -- One more in the significand, which may fill its binade by that.
  rw [Nat.add_assoc, sizeAt_add hs.le hk, sizeAt_add (by omega) (by omega)]
  exact Nat.mul_lt_mul_of_pos_right (Nat.lt_succ_self s) (Nat.two_pow_pos k)

/-- The least positive value. -/
def least : ℚ := 2 ^ (-1074 : ℤ)

theorem least_pos : 0 < least := zpow_pos two_pos _

theorem zpow_eq_mul_least (k : ℕ) : (2 : ℚ) ^ ((k : ℤ) - 1074) = 2 ^ k * least := by
  unfold least
  rw [sub_eq_add_neg, zpow_add₀ two_ne_zero, zpow_natCast]

theorem size_eq (x : Binary64) : x.size = sizeAt x.ordinal * least := by
  unfold size magnitude sizeAt
  by_cases hfirst : x.ordinal / binade = 0
  · have hsmall : x.ordinal % binade = x.ordinal :=
      Nat.mod_eq_of_lt (Nat.lt_of_div_eq_zero binade_pos hfirst)
    rw [if_pos hfirst, if_pos hfirst, hsmall]
    rfl
  · obtain ⟨k, hk⟩ := Nat.exists_eq_succ_of_ne_zero hfirst
    have hunit : ((k.succ : ℕ) : ℤ) - 1075 = (k : ℤ) - 1074 := by omega
    rw [if_neg hfirst, if_neg hfirst, hk]
    simp only [hunit, zpow_eq_mul_least, Nat.succ_sub_one, Nat.cast_mul, Nat.cast_pow,
      Nat.cast_ofNat]
    ring

/-- The significand is even if the ordinal is. -/
theorem significand_mod_two (x : Binary64) : x.magnitude.significand % 2 = x.ordinal % 2 := by
  have heven : 2 ∣ binade := by decide
  have hmod : x.ordinal % binade % 2 = x.ordinal % 2 := Nat.mod_mod_of_dvd _ heven
  unfold magnitude
  by_cases hfirst : x.ordinal / binade = 0
  · rw [if_pos hfirst]
    exact hmod
  · rw [if_neg hfirst]
    show (binade + x.ordinal % binade) % 2 = x.ordinal % 2
    omega

/-! ### The nearest multiple -/

/-- A quotient is rounded by no more than one half, and by one half only to an even number. -/
theorem roundHalfEven_spec (num : ℕ) {den : ℕ} (hden : 0 < den) :
    |(num / den : ℚ) - roundHalfEven num den| ≤ 1 / 2 ∧
      (|(num / den : ℚ) - roundHalfEven num den| = 1 / 2 → roundHalfEven num den % 2 = 0) := by
  have hpos : (0 : ℚ) < den := Nat.cast_pos.mpr hden
  have hsplit : (num / den : ℚ) = (num / den : ℕ) + (num % den : ℕ) / den := by
    rw [div_eq_iff hpos.ne', add_mul, div_mul_cancel₀ _ hpos.ne']
    exact_mod_cast (Nat.div_add_mod' num den).symm
  have hstart : (0 : ℚ) ≤ (num % den : ℕ) / den := by positivity
  have hend : ((num % den : ℕ) / den : ℚ) < 1 := by
    rw [div_lt_one hpos]
    exact_mod_cast Nat.mod_lt num hden
  unfold roundHalfEven
  rw [hsplit]
  by_cases hbelow : 2 * (num % den) < den
  · have hpart : ((num % den : ℕ) / den : ℚ) < 1 / 2 := by
      rw [div_lt_div_iff₀ hpos two_pos, one_mul, mul_comm]
      exact_mod_cast hbelow
    simp only [if_pos hbelow]
    rw [add_sub_cancel_left, abs_of_nonneg hstart]
    exact ⟨hpart.le, fun htie => absurd htie hpart.ne⟩
  · by_cases habove : den < 2 * (num % den)
    · have hpart : (1 : ℚ) / 2 < (num % den : ℕ) / den := by
        rw [div_lt_div_iff₀ two_pos hpos, one_mul, mul_comm]
        exact_mod_cast habove
      simp only [if_neg hbelow, if_pos habove]
      rw [Nat.cast_add, Nat.cast_one, add_sub_add_left_eq_sub, abs_of_neg (by linarith)]
      exact ⟨by linarith, fun htie => by linarith⟩
    · -- Just between two numbers, where the parity of the lower one decides.
      have hpart : ((num % den : ℕ) / den : ℚ) = 1 / 2 := by
        rw [div_eq_div_iff hpos.ne' two_ne_zero, one_mul, mul_comm]
        exact_mod_cast (by omega : 2 * (num % den) = den)
      simp only [if_neg hbelow, if_neg habove]
      rw [hpart, Nat.cast_add, add_sub_add_left_eq_sub]
      refine ⟨?_, fun _ => by omega⟩
      rcases Nat.mod_two_eq_zero_or_one (num / den) with hparity | hparity
      · rw [hparity]
        norm_num
      · rw [hparity]
        norm_num

/-- A number within one half is nearest. Another one is equally near only at one half. -/
theorem abs_sub_le_abs_sub_natCast {v : ℚ} {s : ℕ} (hnear : |v - s| ≤ 1 / 2) (i : ℕ) :
    |v - s| ≤ |v - i| ∧ (i ≠ s → |v - i| = |v - s| → |v - s| = 1 / 2) := by
  by_cases hsame : i = s
  · rw [hsame]
    exact ⟨le_rfl, fun h => absurd rfl h⟩
  · have hapart : (1 : ℚ) ≤ |(s : ℚ) - i| := by
      have hne : (s : ℤ) - i ≠ 0 := by omega
      exact_mod_cast Int.one_le_abs hne
    have htriangle : |(s : ℚ) - i| ≤ |v - s| + |v - i| := by
      rw [abs_sub_comm v s]
      exact abs_sub_le _ _ _
    exact ⟨by linarith, fun _ htie => by linarith⟩

theorem le_of_abs_sub_le {v : ℚ} {s i : ℕ} (hnear : |v - s| ≤ 1 / 2) (hv : v ≤ i) : s ≤ i := by
  have hbounds := abs_le.mp hnear
  have hlt : (s : ℚ) < (i + 1 : ℕ) := by
    push_cast
    linarith
  exact Nat.le_of_lt_succ (Nat.cast_lt.mp hlt)

theorem ge_of_abs_sub_le {v : ℚ} {s i : ℕ} (hnear : |v - s| ≤ 1 / 2) (hv : i ≤ v) : i ≤ s := by
  have hbounds := abs_le.mp hnear
  have hlt : (i : ℚ) < (s + 1 : ℕ) := by
    push_cast
    linarith
  exact Nat.le_of_lt_succ (Nat.cast_lt.mp hlt)

/-! ### The nearest point -/

/-- Of all values, the one with some ordinal is nearest to a number, which is counted in least
    positive values. If another value is equally near, the ordinal is even. -/
structure Nearest (r : ℚ) (n : ℕ) : Prop where
  le : ∀ m : ℕ, |r - sizeAt n| ≤ |r - sizeAt m|
  even_of_tie : ∀ m : ℕ, m ≠ n → |r - sizeAt m| = |r - sizeAt n| → n % 2 = 0

theorem abs_sub_mul {r a c : ℚ} (hc : 0 < c) : |r - a * c| = |r / c - a| * c := by
  rw [← abs_of_pos hc, ← abs_mul, abs_of_pos hc, sub_mul, div_mul_cancel₀ _ hc.ne']

/-- A value in the binade of a unit or above it is a multiple of the unit. -/
theorem exists_sizeAt_eq_mul {k j t : ℕ} (hkj : k ≤ j) (ht : t ≤ 2 * binade)
    (hj : j = 0 ∨ binade ≤ t) : ∃ i : ℕ, sizeAt (j * binade + t) = i * 2 ^ k := by
  refine ⟨t * 2 ^ (j - k), ?_⟩
  rw [sizeAt_add ht hj, Nat.mul_assoc, ← Nat.pow_add, Nat.sub_add_cancel hkj]

/-- A value in a lower binade is less than where the binade starts. -/
theorem sizeAt_lt_mul {k j t : ℕ} (hjk : j < k) (ht : t < 2 * binade)
    (hj : j = 0 ∨ binade ≤ t) : sizeAt (j * binade + t) < binade * 2 ^ k := by
  rw [sizeAt_add ht.le hj]
  calc t * 2 ^ j < 2 * binade * 2 ^ j := Nat.mul_lt_mul_of_pos_right ht (Nat.two_pow_pos j)
    _ = binade * 2 ^ (j + 1) := by rw [Nat.pow_succ]; ring
    _ ≤ binade * 2 ^ k := Nat.mul_le_mul_left _ (Nat.pow_le_pow_right two_pos hjk)

section grid

variable {r : ℚ} {k s : ℕ} (hnear : |r / 2 ^ k - s| ≤ 1 / 2)

include hnear

theorem abs_sub_mul_le_abs_sub_mul (i : ℕ) :
    |r - (s * 2 ^ k : ℕ)| ≤ |r - (i * 2 ^ k : ℕ)| ∧
      (i ≠ s → |r - (i * 2 ^ k : ℕ)| = |r - (s * 2 ^ k : ℕ)| → |r / 2 ^ k - s| = 1 / 2) := by
  have hunit : (0 : ℚ) < 2 ^ k := by positivity
  have hscale : ∀ i : ℕ, |r - (i * 2 ^ k : ℕ)| = |r / 2 ^ k - i| * 2 ^ k := by
    intro i
    rw [Nat.cast_mul, Nat.cast_pow, Nat.cast_ofNat, abs_sub_mul hunit]
  obtain ⟨hle, htie⟩ := abs_sub_le_abs_sub_natCast hnear i
  rw [hscale, hscale]
  exact ⟨mul_le_mul_of_nonneg_right hle hunit.le,
    fun hne heq => htie hne (mul_right_cancel₀ hunit.ne' heq)⟩

/-- The nearest multiple of the unit is nearer than anything below the binade. -/
theorem abs_sub_mul_lt_of_lt {size : ℕ} (hsize : size < binade * 2 ^ k)
    (hstart : (binade : ℚ) ≤ r / 2 ^ k) : |r - (s * 2 ^ k : ℕ)| < |r - size| := by
  have hsize : (size : ℚ) < (binade * 2 ^ k : ℕ) := Nat.cast_lt.mpr hsize
  have hstart : ((binade * 2 ^ k : ℕ) : ℚ) ≤ r := by
    rw [Nat.cast_mul, Nat.cast_pow, Nat.cast_ofNat]
    exact (le_div_iff₀ (by positivity)).mp hstart
  -- The start of the binade is on the grid, and it lies in between.
  calc |r - (s * 2 ^ k : ℕ)| ≤ |r - (binade * 2 ^ k : ℕ)| :=
        (abs_sub_mul_le_abs_sub_mul hnear binade).1
    _ = r - (binade * 2 ^ k : ℕ) := abs_of_nonneg (sub_nonneg.mpr hstart)
    _ < r - size := sub_lt_sub_left hsize r
    _ ≤ |r - size| := le_abs_self _

/-- A value that is no farther than the nearest multiple of the unit is a multiple as well. -/
theorem exists_sizeAt_eq_mul_or_lt (hstart : k = 0 ∨ (binade : ℚ) ≤ r / 2 ^ k) (m : ℕ) :
    (∃ i : ℕ, sizeAt m = i * 2 ^ k) ∨ |r - (s * 2 ^ k : ℕ)| < |r - sizeAt m| := by
  obtain ⟨j, t, rfl, ht, hj⟩ := exists_ordinal_eq m
  by_cases hjk : j < k
  · right
    obtain hzero | hstart := hstart
    · omega
    · exact abs_sub_mul_lt_of_lt hnear (sizeAt_lt_mul hjk ht hj) hstart
  · exact Or.inl (exists_sizeAt_eq_mul (Nat.le_of_not_lt hjk) ht.le hj)

/-- The nearest multiple of the unit is nearest among all values. -/
theorem nearest_of_grid (hstart : k = 0 ∨ (binade : ℚ) ≤ r / 2 ^ k)
    (hend : r / 2 ^ k ≤ (2 * binade : ℕ)) (htie : |r / 2 ^ k - s| = 1 / 2 → s % 2 = 0) :
    Nearest r (k * binade + s) := by
  have hsize : sizeAt (k * binade + s) = s * 2 ^ k :=
    sizeAt_add (le_of_abs_sub_le hnear hend) (hstart.imp_right (ge_of_abs_sub_le hnear))
  constructor
  · intro m
    rw [hsize]
    obtain ⟨i, hi⟩ | hfar := exists_sizeAt_eq_mul_or_lt hnear hstart m
    · rw [hi]
      exact (abs_sub_mul_le_abs_sub_mul hnear i).1
    · exact hfar.le
  · intro m hm heq
    have heven : s % 2 = 0 := by
      rw [hsize] at heq
      obtain ⟨i, hi⟩ | hfar := exists_sizeAt_eq_mul_or_lt hnear hstart m
      · rw [hi] at heq
        apply htie
        apply (abs_sub_mul_le_abs_sub_mul hnear i).2 _ heq
        rintro rfl
        exact hm (strictMono_sizeAt.injective (hi.trans hsize.symm))
      · exact absurd heq hfar.ne'
    rw [Nat.add_mod, Nat.mul_mod, show binade % 2 = 0 from rfl, heven, Nat.mul_zero, Nat.zero_mod]

end grid

/-! ### Halfway between two values -/

/-- Of two numbers, the lower one is nearest up to the middle. -/
theorem abs_sub_le_abs_sub_iff_le {r a b : ℚ} (hab : a < b) :
    |r - a| ≤ |r - b| ↔ 2 * r ≤ a + b := by
  have hfactor : (r - b) ^ 2 - (r - a) ^ 2 = (b - a) * (a + b - 2 * r) := by ring
  rw [← sq_le_sq, ← sub_nonneg, hfactor, mul_nonneg_iff_of_pos_left (sub_pos.mpr hab), sub_nonneg]

/-- Of two numbers, the upper one is nearest from the middle on. -/
theorem abs_sub_le_abs_sub_iff_ge {r a b : ℚ} (hab : a < b) :
    |r - b| ≤ |r - a| ↔ a + b ≤ 2 * r := by
  have hfactor : (r - a) ^ 2 - (r - b) ^ 2 = (b - a) * (2 * r - (a + b)) := by ring
  rw [← sq_le_sq, ← sub_nonneg, hfactor, mul_nonneg_iff_of_pos_left (sub_pos.mpr hab), sub_nonneg]

theorem sizeAt_lt_sizeAt {m n : ℕ} (h : m < n) : (sizeAt m : ℚ) < sizeAt n := by
  exact_mod_cast strictMono_sizeAt h

theorem sizeAt_le_sizeAt {m n : ℕ} (h : m ≤ n) : (sizeAt m : ℚ) ≤ sizeAt n := by
  exact_mod_cast strictMono_sizeAt.monotone h

/-- A number is rounded above an odd ordinal from the middle to the next value on. -/
theorem Nearest.lt_iff {r : ℚ} {n m : ℕ} (h : Nearest r n) (hodd : m % 2 = 1) :
    m < n ↔ (sizeAt m + sizeAt (m + 1) : ℚ) ≤ 2 * r := by
  have hnext := sizeAt_lt_sizeAt (Nat.lt_succ_self m)
  constructor
  · intro hmn
    have hmiddle := (abs_sub_le_abs_sub_iff_ge (sizeAt_lt_sizeAt hmn)).mp (h.le m)
    have hreached := sizeAt_le_sizeAt (Nat.succ_le_of_lt hmn)
    linarith
  · intro hmiddle
    by_contra hnm
    have hnm : n ≤ m := Nat.le_of_not_lt hnm
    have hbelow := sizeAt_le_sizeAt hnm
    have hnearer :=
      (abs_sub_le_abs_sub_iff_le (sizeAt_lt_sizeAt (Nat.lt_succ_of_le hnm))).mp (h.le (m + 1))
    -- So the number is just in the middle, and the lower value is taken, which is odd.
    have hsame : n = m := by
      apply strictMono_sizeAt.injective
      exact_mod_cast (by linarith : (sizeAt n : ℚ) = sizeAt m)
    rw [hsame] at h
    have htie := le_antisymm ((abs_sub_le_abs_sub_iff_ge hnext).mpr hmiddle) (h.le (m + 1))
    have heven := h.even_of_tie (m + 1) (by omega) htie
    omega

/-! ### Values from their ordinals -/

theorem toNat_lt_of_not_negative {x : Binary64} (h : x.isNegative = false) :
    x.bits.toNat < signBit := by
  unfold isNegative at h
  exact Nat.lt_of_not_le (of_decide_eq_false h)

theorem ordinal_of_not_negative {x : Binary64} (h : x.isNegative = false) :
    x.ordinal = x.bits.toNat :=
  Nat.mod_eq_of_lt (toNat_lt_of_not_negative h)

theorem eq_of_ordinal_eq {x y : Binary64} (hx : x.isNegative = false) (hy : y.isNegative = false)
    (h : x.ordinal = y.ordinal) : x = y := by
  rw [ordinal_of_not_negative hx, ordinal_of_not_negative hy] at h
  exact congrArg mk (UInt64.toNat_inj.mp h)

theorem infinityOrdinal_lt : infinityOrdinal < signBit := by decide

theorem signBit_lt : signBit < 2 ^ 64 := by decide

/-- The value with some ordinal, which is not negative. -/
def ofOrdinal (n : ℕ) : Binary64 := ⟨UInt64.ofNat n⟩

section ofOrdinal

variable {n : ℕ}

theorem toNat_ofOrdinal (hn : n ≤ infinityOrdinal) : (ofOrdinal n).bits.toNat = n := by
  have hlt := Nat.lt_trans infinityOrdinal_lt signBit_lt
  exact UInt64.toNat_ofNat_of_lt (Nat.lt_of_le_of_lt hn hlt)

theorem isNegative_ofOrdinal (hn : n ≤ infinityOrdinal) : (ofOrdinal n).isNegative = false := by
  unfold isNegative
  rw [toNat_ofOrdinal hn]
  exact decide_eq_false (Nat.not_le_of_lt (Nat.lt_of_le_of_lt hn infinityOrdinal_lt))

theorem ordinal_ofOrdinal (hn : n ≤ infinityOrdinal) : (ofOrdinal n).ordinal = n := by
  rw [ordinal_of_not_negative (isNegative_ofOrdinal hn), toNat_ofOrdinal hn]

end ofOrdinal

theorem infinity_eq : infinity = ofOrdinal infinityOrdinal := rfl

theorem eq_infinity_iff_ordinal {x : Binary64} (h : x.isNegative = false) :
    x = infinity ↔ x.ordinal = infinityOrdinal := by
  constructor
  · rintro rfl
    rw [infinity_eq, ordinal_ofOrdinal le_rfl]
  · intro hord
    rw [infinity_eq]
    apply eq_of_ordinal_eq h (isNegative_ofOrdinal le_rfl)
    rw [hord, ordinal_ofOrdinal le_rfl]

theorem isFinite_iff {x : Binary64} : x.IsFinite ↔ x.ordinal < infinityOrdinal := by
  unfold IsFinite isNaN isInfinite
  rw [decide_eq_false_iff_not, decide_eq_false_iff_not]
  omega

theorem number_of_not_negative {x : Binary64} (h : x.isNegative = false) :
    x.number = sizeAt x.ordinal * least := by
  unfold number
  rw [h, size_eq]
  rfl

theorem number_lt_number {x y : Binary64} (hx : x.isNegative = false) (hy : y.isNegative = false)
    (h : x.ordinal < y.ordinal) : x.number < y.number := by
  rw [number_of_not_negative hx, number_of_not_negative hy]
  exact mul_lt_mul_of_pos_right (sizeAt_lt_sizeAt h) least_pos

/-- A finite value is no farther away with its sign taken off. -/
theorem abs_sub_size_le {q : ℚ} (hq : 0 ≤ q) (x : Binary64) : |q - x.size| ≤ |q - x.number| := by
  have hsize : 0 ≤ x.size := by
    rw [size_eq]
    exact mul_nonneg (Nat.cast_nonneg _) least_pos.le
  unfold number
  split
  · rcases hsize.eq_or_lt with hzero | hpos
    · rw [← hzero, neg_zero]
    · exact (abs_sub_le_abs_sub_iff_ge (neg_lt_self hpos)).mpr (by linarith)
  · exact le_rfl

/-! ### At most one rounding -/

section unique

variable {x y : Binary64} {q : ℚ}

theorem Rounds.isFinite (h : x.Rounds q) (hx : x ≠ infinity) : x.IsFinite := by
  have hord := mt (eq_infinity_iff_ordinal h.not_negative).mpr hx
  exact ⟨h.not_nan, decide_eq_false hord⟩

/-- Of two values that a number is rounded to, none is the lower one. -/
theorem Rounds.ordinal_le (hx : x.Rounds q) (hy : y.Rounds q) (hxfin : x ≠ infinity)
    (hyfin : y ≠ infinity) : y.ordinal ≤ x.ordinal := by
  by_contra hlt
  have hlt : x.ordinal < y.ordinal := Nat.lt_of_not_le hlt
  have hnumber : x.number < y.number :=
    number_lt_number hx.not_negative hy.not_negative hlt
  have htie : |q - y.number| = |q - x.number| :=
    le_antisymm (hy.nearest hyfin x (hx.isFinite hxfin)) (hx.nearest hxfin y (hy.isFinite hyfin))
  -- Both are even, so there is a value between them, and this one would be nearer.
  have hxeven := hx.even_of_tie hxfin y (hy.isFinite hyfin) hnumber.ne' htie
  have hyeven := hy.even_of_tie hyfin x (hx.isFinite hxfin) hnumber.ne htie.symm
  rw [significand_mod_two] at hxeven hyeven
  have hyord := isFinite_iff.mp (hy.isFinite hyfin)
  have hle : x.ordinal + 1 ≤ infinityOrdinal := by omega
  have hord := ordinal_ofOrdinal hle
  have hafter : x.number < (ofOrdinal (x.ordinal + 1)).number :=
    number_lt_number hx.not_negative (isNegative_ofOrdinal hle) (by omega)
  have hbefore : (ofOrdinal (x.ordinal + 1)).number < y.number :=
    number_lt_number (isNegative_ofOrdinal hle) hy.not_negative (by omega)
  have hnearer := (abs_sub_le_abs_sub_iff_le hafter).mp
    (hx.nearest hxfin _ (isFinite_iff.mpr (by omega)))
  have hmiddle := (abs_sub_le_abs_sub_iff_ge hnumber).mp htie.le
  linarith

/-- At most one value is what a number is rounded to. -/
theorem Rounds.unique (hx : x.Rounds q) (hy : y.Rounds q) : x = y := by
  by_cases hlarge : (2 : ℚ) ^ 1024 - 2 ^ 970 ≤ q
  · rw [hx.eq_infinity_iff.mpr hlarge, hy.eq_infinity_iff.mpr hlarge]
  · have hxfin := mt hx.eq_infinity_iff.mp hlarge
    have hyfin := mt hy.eq_infinity_iff.mp hlarge
    apply eq_of_ordinal_eq hx.not_negative hy.not_negative
    exact Nat.le_antisymm (hy.ordinal_le hx hyfin hxfin) (hx.ordinal_le hy hxfin hyfin)

end unique

/-! ### The range -/

/-- From the middle between the greatest finite value and the next one on, if the binades went on
    at infinity, a number is out of range. -/
theorem middle_le_iff {q : ℚ} :
    (sizeAt (infinityOrdinal - 1) + sizeAt (infinityOrdinal - 1 + 1) : ℚ) ≤ 2 * (q / least) ↔
      2 ^ 1024 - 2 ^ 970 ≤ q := by
  have hgreatest : infinityOrdinal - 1 = 2045 * binade + (2 * binade - 1) := by decide
  have hbeyond : infinityOrdinal - 1 + 1 = 2046 * binade + binade := by decide
  have hunit : (2 : ℚ) ^ 970 = 2 ^ 2044 * least := by
    have hdiff : ((2044 : ℕ) : ℤ) - 1074 = (970 : ℕ) := by norm_num
    rw [← zpow_eq_mul_least, hdiff, zpow_natCast]
  have hpower : (2 : ℚ) ^ 1024 = 2 ^ 54 * 2 ^ 970 := pow_add 2 54 970
  rw [hbeyond, sizeAt_add (by omega) (Or.inr le_rfl), hgreatest,
    sizeAt_add (by omega) (Or.inr (by decide)), hpower, hunit]
  have hsum : (((2 * binade - 1) * 2 ^ 2045 : ℕ) + (binade * 2 ^ 2046 : ℕ) : ℚ)
      = 2 * ((2 ^ 54 - 1) * 2 ^ 2044) := by
    have hsignificand : ((2 * binade - 1 : ℕ) : ℚ) = 2 ^ 53 - 1 := by
      rw [binade_eq]
      norm_num
    rw [Nat.cast_mul, Nat.cast_mul, hsignificand, binade_eq, Nat.cast_pow, Nat.cast_pow,
      Nat.cast_pow, Nat.cast_ofNat, pow_succ _ 2044, pow_add _ 2044 2]
    generalize (2 : ℚ) ^ 2044 = unit
    ring
  rw [hsum, mul_le_mul_iff_right₀ two_pos, le_div_iff₀ least_pos]
  generalize (2 : ℚ) ^ 2044 = unit
  rw [show 2 ^ 54 * (unit * least) - unit * least = (2 ^ 54 - 1) * unit * least by ring]

section nearest

variable {q : ℚ} {n : ℕ} {y : Binary64}

theorem Nearest.abs_sub_le_size (h : Nearest (q / least) n) (y : Binary64) :
    |q - sizeAt n * least| ≤ |q - y.size| := by
  rw [size_eq, abs_sub_mul least_pos, abs_sub_mul least_pos]
  exact mul_le_mul_of_nonneg_right (h.le y.ordinal) least_pos.le

variable (hq : 0 ≤ q) (h : Nearest (q / least) n)

include hq h

theorem Nearest.abs_sub_le (y : Binary64) : |q - sizeAt n * least| ≤ |q - y.number| :=
  (h.abs_sub_le_size y).trans (abs_sub_size_le hq y)

/-- The value with the other sign is as near only if it stands for zero. -/
theorem Nearest.number_eq_of_tie (hord : y.ordinal = n)
    (htie : |q - y.number| = |q - sizeAt n * least|) : y.number = sizeAt n * least := by
  have hsame : y.size = sizeAt n * least := by rw [size_eq, hord]
  have hsize : 0 ≤ sizeAt n * least := mul_nonneg (Nat.cast_nonneg _) least_pos.le
  unfold number at htie ⊢
  rw [hsame] at htie ⊢
  split at htie
  · next hnegative =>
    rw [if_pos hnegative]
    rcases hsize.eq_or_lt with hzero | hpos
    · rw [← hzero, neg_zero]
    · -- Only zero is as near to both, and to zero the value zero is nearer.
      have hmiddle := (abs_sub_le_abs_sub_iff_le (neg_lt_self hpos)).mp htie.le
      have hzero : q = 0 := by linarith
      have hnearer := h.le 0
      rw [hzero, zero_div, sizeAt_zero, Nat.cast_zero, sub_zero, abs_zero, zero_sub, abs_neg,
        abs_nonpos_iff] at hnearer
      rw [hnearer, zero_mul, neg_zero]
  · next hnonneg => rw [if_neg hnonneg]

theorem Nearest.even_of_number (hne : y.number ≠ sizeAt n * least)
    (htie : |q - y.number| = |q - sizeAt n * least|) : n % 2 = 0 := by
  have hord : y.ordinal ≠ n := fun hord => hne (h.number_eq_of_tie hq hord htie)
  have hsize : |q - y.size| = |q - sizeAt n * least| := by
    apply le_antisymm _ (h.abs_sub_le_size y)
    rw [← htie]
    exact abs_sub_size_le hq y
  rw [size_eq, abs_sub_mul least_pos, abs_sub_mul least_pos] at hsize
  exact h.even_of_tie y.ordinal hord (mul_right_cancel₀ least_pos.ne' hsize)

/-- What is nearest to a number becomes what it is rounded to, cut off at infinity. -/
theorem Nearest.rounds : (ofOrdinal (min n infinityOrdinal)).Rounds q := by
  have hle : min n infinityOrdinal ≤ infinityOrdinal := Nat.min_le_right _ _
  have hord := ordinal_ofOrdinal hle
  have hnonneg := isNegative_ofOrdinal hle
  have hwithin : ofOrdinal (min n infinityOrdinal) ≠ infinity →
      (ofOrdinal (min n infinityOrdinal)).ordinal = n := by
    intro hfin
    have hne := mt (eq_infinity_iff_ordinal hnonneg).mpr hfin
    omega
  constructor
  · exact hnonneg
  · exact decide_eq_false (by omega)
  · have hpos : 0 < infinityOrdinal := by decide
    rw [← middle_le_iff, ← h.lt_iff (by decide), eq_infinity_iff_ordinal hnonneg, hord]
    omega
  · intro hfin y _
    rw [number_of_not_negative hnonneg, hwithin hfin]
    exact h.abs_sub_le hq y
  · intro hfin y _ hne htie
    rw [number_of_not_negative hnonneg, hwithin hfin] at hne htie
    rw [significand_mod_two, hwithin hfin]
    exact h.even_of_number hq hne htie

end nearest

/-! ### Ratios -/

section ratio

variable {num den : ℕ}

theorem shifted_ratio (num den : ℕ) (u : ℤ) :
    ((num <<< (-u).toNat : ℕ) : ℚ) / (den <<< u.toNat : ℕ) = num / den * 2 ^ (-u) := by
  obtain ⟨k, rfl | rfl⟩ := Int.eq_nat_or_neg u
  · rw [Int.toNat_neg_natCast, Int.toNat_natCast, Nat.shiftLeft_zero, Nat.shiftLeft_eq, zpow_neg,
      zpow_natCast]
    push_cast
    rw [div_mul_eq_div_div, div_eq_mul_inv (_ / _)]
  · rw [neg_neg, Int.toNat_neg_natCast, Int.toNat_natCast, Nat.shiftLeft_zero, Nat.shiftLeft_eq,
      zpow_natCast]
    push_cast
    rw [mul_div_right_comm]

/-- Powers of two are compared with a ratio by shifting. -/
theorem shifted_le_iff (num : ℕ) (hden : 0 < den) (u : ℤ) :
    den <<< u.toNat ≤ num <<< (-u).toNat ↔ (2 : ℚ) ^ u ≤ num / den := by
  have hshifted : (0 : ℚ) < (den <<< u.toNat : ℕ) := by
    rw [Nat.shiftLeft_eq]
    exact_mod_cast Nat.mul_pos hden (Nat.two_pow_pos _)
  have hpower : (0 : ℚ) < 2 ^ u := zpow_pos two_pos u
  rw [← @Nat.cast_le ℚ, ← one_le_div hshifted, shifted_ratio, zpow_neg, ← div_eq_mul_inv,
    one_le_div hpower]

theorem log2_spec {n : ℕ} (hn : 0 < n) :
    (2 : ℚ) ^ (n.log2 : ℤ) ≤ n ∧ (n : ℚ) < 2 ^ ((n.log2 : ℤ) + 1) := by
  constructor
  · rw [zpow_natCast]
    exact_mod_cast Nat.log2_self_le hn.ne'
  · rw [← Nat.cast_succ, zpow_natCast]
    exact_mod_cast Nat.lt_log2_self

/-- The logarithm of a ratio is that of its numerator less that of its denominator, or one less. -/
theorem floorLog2_spec (hnum : 0 < num) (hden : 0 < den) :
    (2 : ℚ) ^ floorLog2 num den ≤ num / den ∧ (num / den : ℚ) < 2 ^ (floorLog2 num den + 1) := by
  obtain ⟨hnumlower, hnumupper⟩ := log2_spec hnum
  obtain ⟨hdenlower, hdenupper⟩ := log2_spec hden
  have hpower : ∀ u : ℤ, (0 : ℚ) < 2 ^ u := zpow_pos two_pos
  have hpos : (0 : ℚ) < den := Nat.cast_pos.mpr hden
  have hlower : (2 : ℚ) ^ ((num.log2 : ℤ) - den.log2 - 1) ≤ num / den := by
    rw [sub_sub, zpow_sub₀ two_ne_zero]
    exact div_le_div₀ (Nat.cast_nonneg _) hnumlower hpos hdenupper.le
  have hupper : (num / den : ℚ) < 2 ^ ((num.log2 : ℤ) - den.log2 + 1) := by
    rw [sub_add_eq_add_sub, zpow_sub₀ two_ne_zero]
    calc (num / den : ℚ) ≤ num / 2 ^ (den.log2 : ℤ) :=
          div_le_div_of_nonneg_left (Nat.cast_nonneg _) (hpower _) hdenlower
      _ < 2 ^ ((num.log2 : ℤ) + 1) / 2 ^ (den.log2 : ℤ) :=
          div_lt_div_of_pos_right hnumupper (hpower _)
  unfold floorLog2
  simp only
  split
  · next htest => exact ⟨(shifted_le_iff num hden _).mp htest, hupper⟩
  · next htest =>
    rw [sub_add_cancel]
    exact ⟨hlower, lt_of_not_ge (mt (shifted_le_iff num hden _).mpr htest)⟩

/-- Counted in units, a ratio is a significand of at most 53 bits, and of no fewer except in the
    least binade. -/
theorem unitOf_spec (hnum : 0 < num) (hden : 0 < den) :
    (num / den : ℚ) * 2 ^ (-unitOf num den) < 2 * binade ∧
      (unitOf num den = -1074 ∨ (binade : ℚ) ≤ num / den * 2 ^ (-unitOf num den)) := by
  obtain ⟨hlower, hupper⟩ := floorLog2_spec hnum hden
  have hpower : (0 : ℚ) < 2 ^ (-unitOf num den) := zpow_pos two_pos _
  have hbinade : ((binade : ℕ) : ℚ) = 2 ^ (52 : ℤ) := by
    rw [binade_eq]
    norm_num
  constructor
  · calc (num / den : ℚ) * 2 ^ (-unitOf num den)
        < 2 ^ (floorLog2 num den + 1) * 2 ^ (-unitOf num den) :=
          mul_lt_mul_of_pos_right hupper hpower
      _ = 2 ^ (floorLog2 num den + 1 + -unitOf num den) := (zpow_add₀ two_ne_zero _ _).symm
      _ ≤ 2 ^ (53 : ℤ) := by
          apply zpow_le_zpow_right₀ one_le_two
          unfold unitOf
          omega
      _ = 2 * binade := by
          rw [binade_eq]
          norm_num
  · by_cases hleast : unitOf num den = -1074
    · exact Or.inl hleast
    · right
      have hunit : floorLog2 num den + -unitOf num den = 52 := by
        unfold unitOf at hleast ⊢
        omega
      rw [hbinade, ← hunit, zpow_add₀ two_ne_zero]
      exact mul_le_mul_of_nonneg_right hlower hpower.le

theorem ofRatio_of_pos (hnum : 0 < num) :
    ofRatio num den = ofOrdinal (min ((unitOf num den + 1074).toNat * binade +
      roundHalfEven (num <<< (-unitOf num den).toNat) (den <<< (unitOf num den).toNat))
      infinityOrdinal) :=
  if_neg hnum.ne'

/-- The arithmetic on naturals rounds a ratio. -/
theorem rounds_ofRatio (num : ℕ) (hden : 0 < den) : (ofRatio num den).Rounds (num / den) := by
  have hratio : (0 : ℚ) ≤ num / den := by positivity
  rcases Nat.eq_zero_or_pos num with rfl | hnum
  · have hnearest : Nearest ((0 : ℕ) / den / least) 0 := by
      rw [Nat.cast_zero, zero_div, zero_div]
      constructor
      · intro m
        rw [sizeAt_zero, Nat.cast_zero, sub_zero, abs_zero]
        exact abs_nonneg _
      · intro m _ _
        rfl
    exact hnearest.rounds hratio
  · rw [ofRatio_of_pos hnum]
    obtain ⟨hupper, hlower⟩ := unitOf_spec hnum hden
    obtain ⟨k, hk⟩ : ∃ k : ℕ, unitOf num den = (k : ℤ) - 1074 := by
      refine ⟨(unitOf num den + 1074).toNat, ?_⟩
      unfold unitOf
      omega
    have hgrid : (num / den : ℚ) * 2 ^ (-unitOf num den) = num / den / least / 2 ^ k := by
      rw [zpow_neg, hk, zpow_eq_mul_least]
      field_simp
    have hshifted : 0 < den <<< (unitOf num den).toNat := by
      rw [Nat.shiftLeft_eq]
      exact Nat.mul_pos hden (Nat.two_pow_pos _)
    obtain ⟨hnear, htie⟩ := roundHalfEven_spec (num <<< (-unitOf num den).toNat) hshifted
    rw [shifted_ratio, hgrid] at hnear htie
    rw [hgrid] at hupper hlower
    have hunits : (unitOf num den + 1074).toNat = k := by omega
    apply Nearest.rounds hratio
    rw [hunits]
    apply nearest_of_grid hnear
    · exact hlower.imp_left (by omega)
    · exact_mod_cast hupper.le
    · exact htie

end ratio

end Binary64

end ExprScan
