import Mathlib.Algebra.Order.Archimedean.Basic
import Mathlib.Algebra.Order.Field.Power
import Mathlib.Tactic.FieldSimp
import Mathlib.Tactic.Linarith
import Mathlib.Tactic.Positivity
import Mathlib.Tactic.Ring
import Folio.Decimal.Binary

/-! Rounding to the nearest binary number. A quotient is rounded to a code if it lies among the
rationals that are nearest to the magnitude of the code, the ends included where the last bit of the
code is even. -/
namespace Folio.Decimal

theorem twoTo_eq (n : ℕ) : twoTo n = 2 ^ n := rfl

theorem tenTo_eq (n : ℕ) : tenTo n = 10 ^ n := rfl

@[simp] theorem cast_twoTo (n : ℕ) : (twoTo n : ℚ) = 2 ^ n := by
  rw [twoTo_eq, Nat.cast_pow, Nat.cast_ofNat]

@[simp] theorem cast_tenTo (n : ℕ) : (tenTo n : ℚ) = 10 ^ n := by
  rw [tenTo_eq, Nat.cast_pow, Nat.cast_ofNat]

theorem twoTo_pos (n : ℕ) : 0 < twoTo n := Nat.two_pow_pos n

theorem tenTo_pos (n : ℕ) : 0 < tenTo n := Nat.pow_pos (by decide)

theorem zpow_of_nonneg (b : ℚ) {q : ℤ} (h : 0 ≤ q) : b ^ q = b ^ q.toNat := by
  rw [← zpow_natCast, Int.toNat_of_nonneg h]

theorem zpow_of_not_nonneg (b : ℚ) {q : ℤ} (h : ¬ 0 ≤ q) : b ^ q = (b ^ (-q).toNat)⁻¹ := by
  rw [← zpow_natCast, Int.toNat_of_nonneg (by omega), zpow_neg, inv_inv]

/-- Between two powers of two lies no third. -/
theorem zpow_unique {a b : ℤ} {v : ℚ} (ha : (2 : ℚ) ^ a ≤ v) (ha' : v < 2 ^ (a + 1))
    (hb : (2 : ℚ) ^ b ≤ v) (hb' : v < 2 ^ (b + 1)) : a = b := by
  have hlt : ∀ {a b : ℤ}, (2 : ℚ) ^ a ≤ v → v < 2 ^ (b + 1) → a < b + 1 := fun ha hb =>
    (zpow_lt_zpow_iff_right₀ one_lt_two).1 (ha.trans_lt hb)
  have := hlt ha hb'
  have := hlt hb ha'
  omega

/-! Powers that a quotient reaches -/

variable {n d : ℕ}

/-- Whether a quotient reaches a power, on whole numbers. -/
theorem reaches_iff {b : ℕ} (hb : 0 < b) (hd : 0 < d) (e : ℤ) :
    (if 0 ≤ e then decide (d * b ^ e.toNat ≤ n) else decide (d ≤ n * b ^ (-e).toNat)) = true ↔
      (b : ℚ) ^ e ≤ n / d := by
  have hd' : (0 : ℚ) < d := Nat.cast_pos.2 hd
  have hb' : (0 : ℚ) < b := Nat.cast_pos.2 hb
  split
  · next he =>
    rw [decide_eq_true_iff, zpow_of_nonneg _ he, le_div_iff₀ hd', mul_comm]
    exact_mod_cast Iff.rfl
  · next he =>
    rw [decide_eq_true_iff, zpow_of_not_nonneg _ he, inv_le_iff_one_le_mul₀ (by positivity),
      div_mul_eq_mul_div, one_le_div hd']
    exact_mod_cast Iff.rfl

/-- Logarithms give the power of two that a quotient reaches up to one. -/
theorem log2_bounds (hn : 0 < n) (hd : 0 < d) :
    (2 : ℚ) ^ ((Nat.log2 n : ℤ) - Nat.log2 d - 1) ≤ n / d ∧
      (n / d : ℚ) < 2 ^ ((Nat.log2 n : ℤ) - Nat.log2 d + 1) := by
  have hd' : (0 : ℚ) < d := Nat.cast_pos.2 hd
  have hbounds : ∀ k : ℕ, 0 < k → (2 : ℚ) ^ (Nat.log2 k : ℤ) ≤ k ∧
      (k : ℚ) < 2 ^ ((Nat.log2 k : ℤ) + 1) := by
    intro k hk
    have hlow := Nat.log2_self_le (Nat.ne_of_gt hk)
    have hhigh := Nat.lt_log2_self (n := k)
    rw [← Nat.cast_succ, zpow_natCast, zpow_natCast]
    exact ⟨by exact_mod_cast hlow, by exact_mod_cast hhigh⟩
  obtain ⟨hn₁, hn₂⟩ := hbounds n hn
  obtain ⟨hd₁, hd₂⟩ := hbounds d hd
  constructor
  · rw [le_div_iff₀ hd']
    calc (2 : ℚ) ^ ((Nat.log2 n : ℤ) - Nat.log2 d - 1) * d
        ≤ 2 ^ ((Nat.log2 n : ℤ) - Nat.log2 d - 1) * 2 ^ ((Nat.log2 d : ℤ) + 1) := by gcongr
      _ = 2 ^ (Nat.log2 n : ℤ) := by rw [← zpow_add₀ two_ne_zero]; congr 1; ring
      _ ≤ n := hn₁
  · rw [div_lt_iff₀ hd']
    calc (n : ℚ) < 2 ^ ((Nat.log2 n : ℤ) + 1) := hn₂
      _ = 2 ^ ((Nat.log2 n : ℤ) - Nat.log2 d + 1) * 2 ^ (Nat.log2 d : ℤ) := by
        rw [← zpow_add₀ two_ne_zero]; congr 1; ring
      _ ≤ 2 ^ ((Nat.log2 n : ℤ) - Nat.log2 d + 1) * d := by gcongr

namespace Format

/-! Rounding to a whole number -/

/-- A whole number next to a quotient, the even one if two are equally near. -/
structure Whole (m : ℕ) (x : ℚ) : Prop where
  low : (m : ℚ) - 1 / 2 ≤ x
  high : x ≤ m + 1 / 2
  inside : m % 2 = 1 → (m : ℚ) - 1 / 2 < x ∧ x < m + 1 / 2

/-- The bounds that a rounded quotient obeys leave no other whole number. -/
theorem roundDiv_eq_of_bounds {n d m : ℕ} (hd : 0 < d) (hlow : 2 * m * d ≤ 2 * n + d)
    (hhigh : 2 * n ≤ 2 * m * d + d)
    (hodd : m % 2 = 1 → 2 * m * d < 2 * n + d ∧ 2 * n < 2 * m * d + d) : roundDiv n d = m := by
  have hsplit : n = d * (n / d) + n % d := (Nat.div_add_mod n d).symm
  have hrest : n % d < d := Nat.mod_lt n hd
  unfold roundDiv
  generalize n / d = q at hsplit
  generalize n % d = r at hsplit hrest
  subst hsplit
  have hmq : m = q ∨ m = q + 1 := by
    have h₁ : m < q + 2 := by
      by_contra hnot
      have : (q + 2) * d ≤ m * d := Nat.mul_le_mul_right d (by omega)
      nlinarith
    have h₂ : q < m + 1 := by
      by_contra hnot
      have : (m + 1) * d ≤ q * d := Nat.mul_le_mul_right d (by omega)
      nlinarith
    omega
  rcases hmq with rfl | rfl
  · have hr : 2 * r ≤ d := by nlinarith
    rcases Nat.lt_or_eq_of_le hr with hlt | heq
    · simp [hlt]
    · have heven : m % 2 = 0 := by
        by_contra hnot
        have := (hodd (by omega)).2
        nlinarith
      simp [heq, heven]
  · have hr : d ≤ 2 * r := by nlinarith
    rcases Nat.lt_or_eq_of_le hr with hlt | heq
    · simp [hlt, Nat.not_lt_of_lt hlt]
    · have hodd' : q % 2 = 1 := by
        by_contra hnot
        have := (hodd (by omega)).1
        nlinarith
      simp [heq, hodd']

theorem roundDiv_eq {n d m : ℕ} (hd : 0 < d) (h : Whole m (n / d)) : roundDiv n d = m := by
  have hd' : (0 : ℚ) < d := Nat.cast_pos.2 hd
  refine roundDiv_eq_of_bounds hd ?_ ?_ fun hm => ?_
  · have := (le_div_iff₀ hd').1 h.low
    exact_mod_cast (by linarith : (2 * m * d : ℚ) ≤ 2 * n + d)
  · have := (div_le_iff₀ hd').1 h.high
    exact_mod_cast (by linarith : (2 * n : ℚ) ≤ 2 * m * d + d)
  · obtain ⟨hl, hr⟩ := h.inside hm
    have := (lt_div_iff₀ hd').1 hl
    have := (div_lt_iff₀ hd').1 hr
    exact ⟨by exact_mod_cast (by linarith : (2 * m * d : ℚ) < 2 * n + d),
      by exact_mod_cast (by linarith : (2 * n : ℚ) < 2 * m * d + d)⟩

variable {n d : ℕ} (f : Format)

/-- Where a rational is rounded to a code: the power of two that it reaches, the power that is the
unit there, and the whole number of units next to it. -/
structure Lands (code : ℕ) (v : ℚ) (top q : ℤ) (m : ℕ) : Prop where
  low : (2 : ℚ) ^ top ≤ v
  high : v < 2 ^ (top + 1)
  unit : max f.leastExponent (top - f.fractionBits) = q
  whole : Whole m (v / 2 ^ q)
  code_eq : code = (q - f.leastExponent).toNat * twoTo f.fractionBits + m

variable {f} {code m : ℕ} {top q : ℤ}

theorem Lands.nearest_eq (h : f.Lands code (n / d) top q m) (hn : 0 < n) (hd : 0 < d) :
    f.nearest n d = min f.infinity code := by
  obtain ⟨hfloor, hceil⟩ := log2_bounds hn hd
  unfold nearest
  rw [if_neg (Nat.ne_of_gt hn)]
  generalize (Nat.log2 n : ℤ) - Nat.log2 d = estimate at hfloor hceil ⊢
  have hreaches : (if 0 ≤ estimate then decide (d * twoTo estimate.toNat ≤ n)
      else decide (d ≤ n * twoTo (-estimate).toNat)) = true ↔ (2 : ℚ) ^ estimate ≤ n / d :=
    reaches_iff (b := 2) (by decide) hd estimate
  have htop : (if (if 0 ≤ estimate then decide (d * twoTo estimate.toNat ≤ n)
      else decide (d ≤ n * twoTo (-estimate).toNat)) = true then estimate else estimate - 1) =
        top := by
    by_cases hreach : (2 : ℚ) ^ estimate ≤ n / d
    · rw [if_pos (hreaches.2 hreach)]
      exact zpow_unique hreach hceil h.low h.high
    · rw [if_neg fun hreached => hreach (hreaches.1 hreached)]
      refine zpow_unique hfloor ?_ h.low h.high
      rw [sub_add_cancel]
      exact lt_of_not_ge hreach
  dsimp only
  rw [htop, h.unit, h.code_eq]
  have hwhole := h.whole
  have hround : (if 0 ≤ q then roundDiv n (d * twoTo q.toNat)
      else roundDiv (n * twoTo (-q).toNat) d) = m := by
    split
    · next hq =>
      refine roundDiv_eq (Nat.mul_pos hd (twoTo_pos _)) ?_
      rwa [Nat.cast_mul, cast_twoTo, ← zpow_of_nonneg _ hq, ← div_div]
    · next hq =>
      refine roundDiv_eq hd ?_
      rwa [Nat.cast_mul, cast_twoTo, mul_div_right_comm, ← div_inv_eq_mul,
        ← zpow_of_not_nonneg _ hq]
  rw [hround]

/-! Codes and their magnitudes -/

variable (f)

/-- The significand and the exponent of a code. -/
structure Parts (code m : ℕ) (q : ℤ) : Prop where
  code_eq : code = (q - f.leastExponent).toNat * twoTo f.fractionBits + m
  le : f.leastExponent ≤ q
  lt : m < 2 * twoTo f.fractionBits
  normal : f.leastExponent < q → twoTo f.fractionBits ≤ m

theorem parts_magnitude (code : ℕ) :
    f.Parts code (f.magnitude code).1 (f.magnitude code).2 := by
  have hsplit := Nat.div_add_mod code (twoTo f.fractionBits)
  have hrest := Nat.mod_lt code (twoTo_pos f.fractionBits)
  unfold magnitude
  dsimp only
  split
  · next he =>
    rw [he, Nat.mul_zero, Nat.zero_add] at hsplit
    refine ⟨?_, Int.le_refl _, ?_, fun h => (Int.lt_irrefl _ h).elim⟩
    · simp
    · dsimp only
      omega
  · next he =>
    generalize code / twoTo f.fractionBits = e at hsplit he
    have hshift : (f.leastExponent + e - 1 - f.leastExponent).toNat = e - 1 := by omega
    refine ⟨?_, by dsimp only; omega, by dsimp only; omega, fun _ => Nat.le_add_right ..⟩
    rw [hshift, ← Nat.add_assoc, ← Nat.succ_mul, Nat.succ_eq_add_one, Nat.sub_add_cancel (by omega),
      Nat.mul_comm]
    exact hsplit.symm

variable {f}

theorem Parts.pos (h : f.Parts code m q) (hcode : 0 < code) : 0 < m := by
  by_contra hnot
  have hm : m = 0 := by omega
  have hq : ¬ f.leastExponent < q := fun hlt => by
    have := h.normal hlt
    have := twoTo_pos f.fractionBits
    omega
  have hshift : (q - f.leastExponent).toNat = 0 := by omega
  have heq := h.code_eq
  rw [hshift, hm] at heq
  omega

variable (f)

/-- How far below a magnitude the quotients reach that are rounded to it, in units of its last bit:
the magnitudes below the least one of an exponent are half as far apart. -/
def below (m : ℕ) (q : ℤ) : ℚ :=
  if m = twoTo f.fractionBits ∧ f.leastExponent < q then 1 / 4 else 1 / 2

theorem below_le (m : ℕ) (q : ℤ) : f.below m q ≤ 1 / 2 := by
  unfold below
  split <;> norm_num

/-- Rationals that are nearest to a magnitude. -/
structure Near (m : ℕ) (q : ℤ) (v : ℚ) : Prop where
  low : m - f.below m q ≤ v / 2 ^ q
  high : v / 2 ^ q ≤ m + 1 / 2
  inside : m % 2 = 1 → m - f.below m q < v / 2 ^ q ∧ v / 2 ^ q < m + 1 / 2

variable {f} {v : ℚ}

theorem Near.pos (h : f.Near m q v) (hm : 0 < m) : 0 < v := by
  have hm' : (1 : ℚ) ≤ m := by exact_mod_cast hm
  have hx : 0 < v / 2 ^ q := by
    have := f.below_le m q
    linarith [h.low]
  have hpow : (0 : ℚ) < 2 ^ q := by positivity
  exact (div_pos_iff_of_pos_right hpow).1 hx

theorem Near.whole (h : f.Near m q v) : Whole m (v / 2 ^ q) := by
  have := f.below_le m q
  refine ⟨by linarith [h.low], h.high, fun hodd => ?_⟩
  obtain ⟨hlow, hhigh⟩ := h.inside hodd
  exact ⟨by linarith, hhigh⟩

theorem Near.lt (h : f.Near m q v) (hparts : f.Parts code m q) :
    v < 2 ^ (f.fractionBits + 1 + q) := by
  have hlt : (m : ℚ) + 1 ≤ 2 ^ f.fractionBits * 2 := by
    have := hparts.lt
    rw [twoTo_eq, mul_comm] at this
    exact_mod_cast this
  rw [zpow_add₀ two_ne_zero, zpow_add_one₀ two_ne_zero, zpow_natCast]
  refine (div_lt_iff₀ (by positivity)).1 ?_
  linarith [h.high]

theorem Near.le (h : f.Near m q v) (hparts : f.Parts code m q) (hm : 0 < m) :
    2 ^ (f.leastExponent - 1) ≤ v := by
  have hm' : (1 : ℚ) ≤ m := by exact_mod_cast hm
  have hx : 2⁻¹ ≤ v / 2 ^ q := by
    have := f.below_le m q
    linarith [h.low]
  calc (2 : ℚ) ^ (f.leastExponent - 1) ≤ 2 ^ (q - 1) :=
        zpow_le_zpow_right₀ one_le_two (by have := hparts.le; omega)
    _ = 2⁻¹ * 2 ^ q := by rw [zpow_sub_one₀ two_ne_zero, mul_comm]
    _ ≤ v := (le_div_iff₀ (by positivity)).1 hx

theorem two_zpow_add (k : ℕ) (q : ℤ) : (2 : ℚ) ^ ((k : ℤ) + q) = 2 ^ k * 2 ^ q := by
  rw [zpow_add₀ two_ne_zero, zpow_natCast]

/-- What reaches the exponent of a code is rounded there. -/
theorem Near.lands (h : f.Near m q v) (hparts : f.Parts code m q)
    (hx : 2 ^ f.fractionBits ≤ v / 2 ^ q) : f.Lands code v (f.fractionBits + q) q m where
  low := by
    rw [two_zpow_add]
    exact (le_div_iff₀ (by positivity)).1 hx
  high := by
    rw [add_right_comm]
    exact h.lt hparts
  unit := by
    have := hparts.le
    omega
  whole := h.whole
  code_eq := hparts.code_eq

/-- Only the least magnitude of an exponent has below it what does not reach the exponent. -/
theorem Near.eq_twoTo (h : f.Near m q v) (hparts : f.Parts code m q) (hq : f.leastExponent < q)
    (hx : v / 2 ^ q < 2 ^ f.fractionBits) : m = twoTo f.fractionBits := by
  have hle := hparts.normal hq
  have hlt : (m : ℚ) < twoTo f.fractionBits + 1 := by
    rw [cast_twoTo]
    have := f.below_le m q
    linarith [h.low]
  have : m < twoTo f.fractionBits + 1 := by exact_mod_cast hlt
  omega

/-- What is just below an exponent is rounded with half the unit, up to the exponent. -/
theorem Near.lands_below (h : f.Near m q v) (hparts : f.Parts code m q) (hq : f.leastExponent < q)
    (hx : v / 2 ^ q < 2 ^ f.fractionBits) :
    f.Lands code v (f.fractionBits + q - 1) (q - 1) (2 * m) := by
  have hpow : (0 : ℚ) < 2 ^ q := by positivity
  have hm := h.eq_twoTo hparts hq hx
  have hcast : (m : ℚ) = 2 ^ f.fractionBits := by rw [hm, cast_twoTo]
  have hlow : 2 ^ f.fractionBits - 1 / 4 ≤ v / 2 ^ q := by
    have hbelow : f.below m q = 1 / 4 := if_pos ⟨hm, hq⟩
    rw [← hcast, ← hbelow]
    exact h.low
  have hdouble : v / 2 ^ (q - 1) = 2 * (v / 2 ^ q) := by
    rw [zpow_sub_one₀ two_ne_zero]
    field_simp
  refine ⟨?_, ?_, by omega, ⟨?_, ?_, fun hodd => by omega⟩, ?_⟩
  · rw [zpow_sub_one₀ two_ne_zero, two_zpow_add]
    have hone : (1 : ℚ) ≤ 2 ^ f.fractionBits := one_le_pow₀ one_le_two
    have := (le_div_iff₀ hpow).1 hlow
    nlinarith
  · rw [sub_add_cancel, two_zpow_add]
    exact (div_lt_iff₀ hpow).1 hx
  · rw [hdouble, Nat.cast_mul, Nat.cast_ofNat, hcast]
    linarith
  · rw [hdouble, Nat.cast_mul, Nat.cast_ofNat, hcast]
    linarith
  · have hcode := hparts.code_eq
    have hshift : (q - f.leastExponent).toNat = (q - 1 - f.leastExponent).toNat + 1 := by omega
    rw [hshift, hm, Nat.add_mul, Nat.one_mul] at hcode
    omega

/-- All that is small is rounded with the least exponent. -/
theorem Near.exists_lands (h : f.Near m q v) (hparts : f.Parts code m q) (hv : 0 < v)
    (hq : q = f.leastExponent) (hx : v / 2 ^ q < 2 ^ f.fractionBits) :
    ∃ top, f.Lands code v top q m := by
  obtain ⟨top, hlow, hhigh⟩ := exists_mem_Ico_zpow hv one_lt_two
  have htop : top < f.fractionBits + q := by
    refine (zpow_lt_zpow_iff_right₀ (one_lt_two (α := ℚ))).1 (hlow.trans_lt ?_)
    rw [two_zpow_add]
    exact (div_lt_iff₀ (by positivity)).1 hx
  exact ⟨top, hlow, hhigh, by omega, h.whole, hparts.code_eq⟩

/-- What is nearest to the magnitude of a finite code is rounded to the code. -/
theorem nearest_eq {n d : ℕ} (hparts : f.Parts code m q) (hpos : 0 < code)
    (hfinite : code < f.infinity) (hd : 0 < d) (h : f.Near m q (n / d)) :
    f.nearest n d = code := by
  have hv := h.pos (hparts.pos hpos)
  have hn : 0 < n := by
    rcases Nat.eq_zero_or_pos n with rfl | hn
    · simp at hv
    · exact hn
  have hlands : ∃ top q m, f.Lands code (n / d) top q m := by
    by_cases hx : (2 : ℚ) ^ f.fractionBits ≤ n / d / 2 ^ q
    · exact ⟨_, _, _, h.lands hparts hx⟩
    rw [not_le] at hx
    rcases hparts.le.lt_or_eq with hq | hq
    · exact ⟨_, _, _, h.lands_below hparts hq hx⟩
    · exact (h.exists_lands hparts hv hq.symm hx).imp fun top htop => ⟨_, _, htop⟩
  obtain ⟨top, q, m, hlands⟩ := hlands
  rw [hlands.nearest_eq hn hd, Nat.min_eq_right hfinite.le]

/-! Decimals -/

variable {digits : ℕ} {exponent : ℤ}

/-- A decimal that counts as huge is above all finite values. -/
theorem le_of_isHuge (hdigits : 0 < digits) (h : f.isHuge digits exponent = true) :
    (2 : ℚ) ^ (twoTo (f.exponentBits - 1) : ℤ) ≤ digits * 10 ^ exponent := by
  simp only [isHuge, Bool.and_eq_true, decide_eq_true_eq] at h
  obtain ⟨hexponent, hsum⟩ := h
  have hlog : (2 : ℚ) ^ (Nat.log2 digits : ℤ) ≤ digits := by
    rw [zpow_natCast]
    exact_mod_cast Nat.log2_self_le (Nat.ne_of_gt hdigits)
  calc (2 : ℚ) ^ (twoTo (f.exponentBits - 1) : ℤ)
      ≤ 2 ^ ((Nat.log2 digits : ℤ) + 3 * exponent) := zpow_le_zpow_right₀ one_le_two hsum
    _ = 2 ^ (Nat.log2 digits : ℤ) * 8 ^ exponent := by
      rw [zpow_add₀ two_ne_zero, zpow_mul]
      norm_num
    _ ≤ digits * 10 ^ exponent := by
      gcongr
      exact zpow_le_zpow_left₀ hexponent (by norm_num) (by norm_num)

/-- A decimal that counts as tiny is below half of the least positive value. -/
theorem lt_of_isTiny (h : f.isTiny digits exponent = true) :
    (digits * 10 ^ exponent : ℚ) < 2 ^ (f.leastExponent - 1) := by
  simp only [isTiny, Bool.and_eq_true, decide_eq_true_eq] at h
  obtain ⟨hexponent, hsum⟩ := h
  have hlog : (digits : ℚ) < 2 ^ ((Nat.log2 digits : ℤ) + 1) := by
    rw [← Nat.cast_succ, zpow_natCast]
    exact_mod_cast Nat.lt_log2_self (n := digits)
  have hpow : (10 : ℚ) ^ exponent ≤ 8 ^ exponent := by
    have hup : (8 : ℚ) ^ (-exponent) ≤ 10 ^ (-exponent) :=
      zpow_le_zpow_left₀ (by omega) (by norm_num) (by norm_num)
    have hdown := inv_anti₀ (by positivity) hup
    rwa [← zpow_neg, ← zpow_neg, neg_neg] at hdown
  calc (digits * 10 ^ exponent : ℚ)
      < 2 ^ ((Nat.log2 digits : ℤ) + 1) * 10 ^ exponent := by gcongr
    _ ≤ 2 ^ ((Nat.log2 digits : ℤ) + 1) * 8 ^ exponent := by gcongr
    _ = 2 ^ ((Nat.log2 digits : ℤ) + 1 + 3 * exponent) := by
      rw [zpow_add₀ two_ne_zero (_ + 1), zpow_mul 2 3]
      norm_num
    _ ≤ 2 ^ (f.leastExponent - 1) := zpow_le_zpow_right₀ one_le_two (by omega)

/-- The exponents of finite codes end where decimals count as huge. -/
theorem Parts.exponent_le (hparts : f.Parts code m q) (hwidth : 2 ≤ f.exponentBits)
    (hfinite : code < f.infinity) : f.fractionBits + 1 + q ≤ twoTo (f.exponentBits - 1) := by
  have hhalf : twoTo f.exponentBits = 2 * twoTo (f.exponentBits - 1) := by
    rw [twoTo_eq, twoTo_eq, ← pow_succ']
    congr 1
    omega
  have htwo : 2 ≤ twoTo (f.exponentBits - 1) := by
    have : 2 ^ 1 ≤ 2 ^ (f.exponentBits - 1) := Nat.pow_le_pow_right (by decide) (by omega)
    exact this
  have hleast : f.leastExponent = 2 - twoTo (f.exponentBits - 1) - f.fractionBits := rfl
  rcases hparts.le.lt_or_eq with hlt | heq
  · have hnormal := hparts.normal hlt
    have hshift : (q - f.leastExponent).toNat + 1 < twoTo f.exponentBits - 1 := by
      refine Nat.lt_of_mul_lt_mul_right (a := twoTo f.fractionBits) ?_
      rw [Nat.add_mul, Nat.one_mul]
      have hcode := hparts.code_eq
      have hinfinity : f.infinity = (twoTo f.exponentBits - 1) * twoTo f.fractionBits := rfl
      omega
    omega
  · omega

/-- A decimal that is nearest to the magnitude of a finite code is read as the code. -/
theorem ofDecimal_eq (hwidth : 2 ≤ f.exponentBits) (hparts : f.Parts code m q) (hpos : 0 < code)
    (hfinite : code < f.infinity) (h : f.Near m q (digits * 10 ^ exponent)) :
    f.ofDecimal digits exponent = code := by
  have hm := hparts.pos hpos
  have hdigits : 0 < digits := by
    rcases Nat.eq_zero_or_pos digits with rfl | hdigits
    · have := h.pos hm
      simp at this
    · exact hdigits
  have hhuge : ¬ f.isHuge digits exponent = true := by
    intro hhuge
    have hlow := le_of_isHuge hdigits hhuge
    have hhigh := h.lt hparts
    have hexponent := hparts.exponent_le hwidth hfinite
    have hpow := zpow_le_zpow_right₀ (one_le_two (α := ℚ)) hexponent
    linarith
  have htiny : ¬ f.isTiny digits exponent = true := by
    intro htiny
    have hhigh := lt_of_isTiny htiny
    have hlow := h.le hparts hm
    linarith
  unfold ofDecimal
  rw [if_neg (Nat.ne_of_gt hdigits), if_neg hhuge, if_neg htiny]
  split
  · next hexponent =>
    refine nearest_eq hparts hpos hfinite Nat.one_pos ?_
    rwa [Nat.cast_one, div_one, Nat.cast_mul, cast_tenTo, ← zpow_of_nonneg _ hexponent]
  · next hexponent =>
    refine nearest_eq hparts hpos hfinite (tenTo_pos _) ?_
    rwa [cast_tenTo, div_eq_mul_inv, ← zpow_of_not_nonneg _ hexponent]

end Format

end Folio.Decimal
