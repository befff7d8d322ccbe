import Folio.Decimal.Shortest
import Folio.Proofs.Decimal.Nearest

/-! The shortest decimal of a double reads back as the double. The search goes through finer and
finer grids and takes only points that round to the double; on the grid of seventeen digits one of
the two points next to the double does. -/
namespace Folio.Decimal

/-! Powers of ten as quotients of whole numbers -/

/-- Denominator of a power of ten. -/
def tenUp (e : ℤ) : ℕ := if 0 ≤ e then 1 else tenTo (-e).toNat

/-- Numerator of a power of ten. -/
def tenDown (e : ℤ) : ℕ := if 0 ≤ e then tenTo e.toNat else 1

theorem tenUp_pos (e : ℤ) : 0 < tenUp e := by
  unfold tenUp
  split
  · exact Nat.one_pos
  · exact tenTo_pos _

theorem tenDown_pos (e : ℤ) : 0 < tenDown e := by
  unfold tenDown
  split
  · exact tenTo_pos _
  · exact Nat.one_pos

theorem tenDown_eq (e : ℤ) : (tenDown e : ℚ) = 10 ^ e * tenUp e := by
  unfold tenDown tenUp
  split
  · next h => rw [cast_tenTo, Nat.cast_one, mul_one, zpow_of_nonneg _ h]
  · next h =>
    rw [cast_tenTo, Nat.cast_one, zpow_of_not_nonneg _ h, inv_mul_cancel₀ (by positivity)]

namespace Rounding

variable {r : Rounding} {d : ℕ} {e : ℤ}

/-- The unit of a rounding. -/
def unit (r : Rounding) : ℚ := r.num / r.den

/-- A rounding whose unit is positive. -/
structure Proper (r : Rounding) : Prop where
  num : 0 < r.num
  den : 0 < r.den

namespace Proper

theorem unit_pos (hr : r.Proper) : 0 < r.unit :=
  div_pos (Nat.cast_pos.2 hr.num) (Nat.cast_pos.2 hr.den)

/-- A comparison on whole numbers, in units. -/
theorem compare (hr : r.Proper) (k d : ℕ) (e : ℤ) :
    (k * r.num * tenUp e ≤ d * tenDown e * r.den ↔ (k : ℚ) ≤ d * 10 ^ e / r.unit) ∧
      (d * tenDown e * r.den ≤ k * r.num * tenUp e ↔ d * 10 ^ e / r.unit ≤ (k : ℚ)) := by
  have hup : (0 : ℚ) < tenUp e := Nat.cast_pos.2 (tenUp_pos e)
  have hden : (0 : ℚ) < r.den := Nat.cast_pos.2 hr.den
  have hpos := mul_pos hden hup
  have hmul : r.unit * r.den = r.num := div_mul_cancel₀ _ hden.ne'
  have hleft : ((k * r.num * tenUp e : ℕ) : ℚ) = k * r.unit * (r.den * tenUp e) := by
    push_cast
    rw [← hmul]
    ring
  have hright : ((d * tenDown e * r.den : ℕ) : ℚ) = d * 10 ^ e * (r.den * tenUp e) := by
    push_cast
    rw [tenDown_eq]
    ring
  rw [← Nat.cast_le (α := ℚ), ← Nat.cast_le (α := ℚ), hleft, hright,
    mul_le_mul_iff_of_pos_right hpos, mul_le_mul_iff_of_pos_right hpos, le_div_iff₀ hr.unit_pos,
    div_le_iff₀ hr.unit_pos]
  exact ⟨Iff.rfl, Iff.rfl⟩

/-- A point reads back if it lies in the interval. -/
theorem holds_iff (hr : r.Proper) : r.holds d e = true ↔
    if r.closed then
      ((r.value - r.below : ℕ) : ℚ) ≤ d * 10 ^ e / r.unit ∧
        d * 10 ^ e / r.unit ≤ ((r.value + r.above : ℕ) : ℚ)
    else
      ((r.value - r.below : ℕ) : ℚ) < d * 10 ^ e / r.unit ∧
        d * 10 ^ e / r.unit < ((r.value + r.above : ℕ) : ℚ) := by
  obtain ⟨hlow, hlow'⟩ := hr.compare (r.value - r.below) d e
  obtain ⟨hhigh, hhigh'⟩ := hr.compare (r.value + r.above) d e
  change (if r.closed then
      decide ((r.value - r.below) * r.num * tenUp e ≤ d * tenDown e * r.den) &&
        decide (d * tenDown e * r.den ≤ (r.value + r.above) * r.num * tenUp e)
    else
      decide ((r.value - r.below) * r.num * tenUp e < d * tenDown e * r.den) &&
        decide (d * tenDown e * r.den < (r.value + r.above) * r.num * tenUp e)) = true ↔ _
  split
  · rw [Bool.and_eq_true, decide_eq_true_iff, decide_eq_true_iff, hlow, hhigh']
  · rw [Bool.and_eq_true, decide_eq_true_iff, decide_eq_true_iff, ← not_le, ← not_le, hlow', hhigh,
      not_le, not_le]

/-- The two points of a grid next to the value. -/
theorem neighbours_bounds (hr : r.Proper) (tie : Tie) (e : ℤ) :
    let low := (r.neighbours tie e).1
    (low * 10 ^ e / r.unit : ℚ) ≤ r.value ∧
      (r.value : ℚ) < (low + 1 : ℕ) * 10 ^ e / r.unit := by
  intro low
  have hpos : 0 < r.den * tenDown e := Nat.mul_pos hr.den (tenDown_pos e)
  have hsplit := Nat.div_add_mod (r.value * r.num * tenUp e) (r.den * tenDown e)
  have hrest := Nat.mod_lt (r.value * r.num * tenUp e) hpos
  have hlow : low = r.value * r.num * tenUp e / (r.den * tenDown e) := rfl
  rw [← hlow] at hsplit
  constructor
  · refine (hr.compare r.value low e).2.1 ?_
    rw [Nat.mul_assoc, Nat.mul_comm (tenDown e), Nat.mul_comm low]
    omega
  · refine lt_of_not_ge fun hge => ?_
    have := (hr.compare r.value (low + 1) e).2.2 hge
    rw [Nat.mul_assoc, Nat.mul_comm (tenDown e), Nat.add_mul, Nat.mul_comm low] at this
    omega

end Proper

/-! The search -/

theorem holds_of_onGrid? {tie : Tie} (h : r.onGrid? tie e = some d) : r.holds d e = true := by
  unfold onGrid? at h
  dsimp only at h
  split at h <;> cases h
  · next hlow hhigh =>
    split
    · exact hlow
    · exact hhigh
  · assumption
  · assumption

/-- The search ends at a point that reads back, if one of the grids up to its end has one. -/
theorem holds_search {tie : Tie} {lead : ℤ} {fuel count k : ℕ} (hk : count ≤ k)
    (hfuel : k < count + fuel) (h : (r.onGrid? tie (lead + 1 - k)).isSome) :
    r.holds (r.search tie lead fuel count).digits (r.search tie lead fuel count).exponent =
      true := by
  induction fuel generalizing count with
  | zero => omega
  | succ fuel ih =>
    rw [search]
    split
    · next hgrid => exact holds_of_onGrid? hgrid
    · next hgrid =>
      have hne : k ≠ count := by
        rintro rfl
        rw [hgrid] at h
        cases h
      exact ih (by omega) (by omega)

theorem onGrid?_isSome {tie : Tie} (h : r.holds (r.neighbours tie e).1 e = true ∨
    r.holds ((r.neighbours tie e).1 + 1) e = true) : (r.onGrid? tie e).isSome := by
  have hhigh : (r.neighbours tie e).2.1 = (r.neighbours tie e).1 + 1 := rfl
  rw [← hhigh] at h
  unfold onGrid?
  generalize r.neighbours tie e = next at h
  obtain ⟨low, high, nearer⟩ := next
  dsimp only at h ⊢
  split
  · rfl
  · rfl
  · rfl
  · next hlow hhigh =>
    rw [hlow, hhigh] at h
    simp at h

end Rounding

namespace Format

variable {f : Format} {code d : ℕ} {e : ℤ}

theorem proper_rounding (f : Format) (code : ℕ) : (f.rounding code).Proper := by
  refine ⟨?_, ?_⟩
  · change 0 < if 0 ≤ (f.magnitude code).2 - 2 then twoTo ((f.magnitude code).2 - 2).toNat else 1
    split
    · exact twoTo_pos _
    · exact Nat.one_pos
  · change 0 < if 0 ≤ (f.magnitude code).2 - 2 then 1 else twoTo (-((f.magnitude code).2 - 2)).toNat
    split
    · exact Nat.one_pos
    · exact twoTo_pos _

/-- A rounding counts in quarters of the last bit. -/
theorem unit_rounding (f : Format) (code : ℕ) :
    (f.rounding code).unit = 2 ^ (f.magnitude code).2 / 4 := by
  have hquarter : (2 : ℚ) ^ (f.magnitude code).2 / 4 = 2 ^ ((f.magnitude code).2 - 2) := by
    rw [zpow_sub₀ two_ne_zero]
    norm_num
  rw [hquarter]
  change ((if 0 ≤ (f.magnitude code).2 - 2 then twoTo ((f.magnitude code).2 - 2).toNat
      else 1 : ℕ) : ℚ) /
    (if 0 ≤ (f.magnitude code).2 - 2 then 1 else twoTo (-((f.magnitude code).2 - 2)).toNat : ℕ) = _
  split
  · next h => rw [cast_twoTo, Nat.cast_one, div_one, zpow_of_nonneg _ h]
  · next h => rw [cast_twoTo, Nat.cast_one, one_div, zpow_of_not_nonneg _ h]

theorem div_unit_rounding (f : Format) (code : ℕ) (x : ℚ) :
    x / (f.rounding code).unit = 4 * (x / 2 ^ (f.magnitude code).2) := by
  rw [unit_rounding]
  field_simp

/-- The lower end of the interval of a rounding. -/
theorem low_rounding (hm : 0 < (f.magnitude code).1) :
    (((f.rounding code).value - (f.rounding code).below : ℕ) : ℚ) =
      4 * ((f.magnitude code).1 - f.below (f.magnitude code).1 (f.magnitude code).2) := by
  have hbelow : (f.rounding code).below =
      if (f.magnitude code).1 = twoTo f.fractionBits ∧ f.leastExponent < (f.magnitude code).2
      then 1 else 2 := rfl
  have hvalue : (f.rounding code).value = 4 * (f.magnitude code).1 := rfl
  rw [hvalue, hbelow, below]
  split
  · rw [Nat.cast_sub (by omega)]
    push_cast
    ring
  · rw [Nat.cast_sub (by omega)]
    push_cast
    ring

/-- The points that a rounding takes are those that are nearest to the magnitude. -/
theorem holds_rounding_iff (hm : 0 < (f.magnitude code).1) :
    (f.rounding code).holds d e = true ↔
      f.Near (f.magnitude code).1 (f.magnitude code).2 (d * 10 ^ e) := by
  rw [(f.proper_rounding code).holds_iff, f.div_unit_rounding code]
  have hclosed : (f.rounding code).closed = decide ((f.magnitude code).1 % 2 = 0) := rfl
  have hhigh : (f.rounding code).value + (f.rounding code).above =
      4 * (f.magnitude code).1 + 2 := rfl
  have hlow := low_rounding hm
  generalize (f.magnitude code).1 = m at *
  generalize (f.magnitude code).2 = q at *
  rw [hlow, hhigh, hclosed]
  push_cast
  constructor
  · intro h
    split at h
    · next heven =>
      rw [decide_eq_true_iff] at heven
      exact ⟨by linarith, by linarith, fun hodd => by omega⟩
    · exact ⟨by linarith, by linarith, fun _ => ⟨by linarith, by linarith⟩⟩
  · intro h
    split
    · exact ⟨by linarith [h.low], by linarith [h.high]⟩
    · next hodd =>
      rw [decide_eq_true_iff] at hodd
      obtain ⟨hl, hr⟩ := h.inside (by omega)
      exact ⟨by linarith, by linarith⟩

/-! The digits -/

/-- The number of digits gives the power of ten that a number reaches. -/
theorem length_digitsOf {n : ℕ} (hn : 0 < n) :
    (10 : ℚ) ^ ((digitsOf n).length - 1 : ℤ) ≤ n ∧ (n : ℚ) < 10 ^ ((digitsOf n).length : ℤ) := by
  have hpos : 0 < (digitsOf n).length := Nat.length_toDigits_pos
  have hiff : ∀ k, 0 < k → ((digitsOf n).length ≤ k ↔ n < 10 ^ k) := fun k hk =>
    Nat.length_toDigits_le_iff (by decide) hk
  have hhigh : n < 10 ^ (digitsOf n).length := (hiff _ hpos).1 (Nat.le_refl _)
  have hlow : 10 ^ ((digitsOf n).length - 1) ≤ n := by
    rcases Nat.eq_zero_or_pos ((digitsOf n).length - 1) with hzero | hk
    · rw [hzero]
      exact hn
    · refine Nat.le_of_not_lt fun hlt => ?_
      have := (hiff _ hk).2 hlt
      omega
  rw [← Int.natCast_pred_of_pos hpos, zpow_natCast, zpow_natCast]
  exact ⟨by exact_mod_cast hlow, by exact_mod_cast hhigh⟩

theorem leadExponent_le {n d : ℕ} (hn : 0 < n) (hd : 0 < d) :
    (10 : ℚ) ^ leadExponent n d ≤ n / d := by
  have hd' : (0 : ℚ) < d := Nat.cast_pos.2 hd
  have hfloor : (10 : ℚ) ^ (((digitsOf n).length : ℤ) - (digitsOf d).length - 1) ≤ n / d := by
    rw [le_div_iff₀ hd']
    calc (10 : ℚ) ^ (((digitsOf n).length : ℤ) - (digitsOf d).length - 1) * d
        ≤ 10 ^ (((digitsOf n).length : ℤ) - (digitsOf d).length - 1) *
            10 ^ ((digitsOf d).length : ℤ) := by
          have := (length_digitsOf hd).2
          gcongr
      _ = 10 ^ ((digitsOf n).length - 1 : ℤ) := by
          rw [← zpow_add₀ (by norm_num)]
          congr 1
          ring
      _ ≤ n := (length_digitsOf hn).1
  unfold leadExponent
  generalize ((digitsOf n).length : ℤ) - (digitsOf d).length = estimate at hfloor
  have hreaches : (if 0 ≤ estimate then decide (d * tenTo estimate.toNat ≤ n)
      else decide (d ≤ n * tenTo (-estimate).toNat)) = true ↔ (10 : ℚ) ^ estimate ≤ n / d :=
    reaches_iff (b := 10) (by decide) hd estimate
  dsimp only
  by_cases h : (10 : ℚ) ^ estimate ≤ n / d
  · rwa [if_pos (hreaches.2 h)]
  · rwa [if_neg fun hreach => h (hreaches.1 hreach)]

/-- A magnitude as a quotient of whole numbers. -/
theorem fraction_eq (f : Format) (code : ℕ) : 0 < (f.fraction code).2 ∧
    ((f.fraction code).1 / (f.fraction code).2 : ℚ) =
      (f.magnitude code).1 * 2 ^ (f.magnitude code).2 := by
  unfold fraction
  dsimp only
  split
  · next h =>
    refine ⟨Nat.one_pos, ?_⟩
    rw [Nat.cast_mul, cast_twoTo, Nat.cast_one, div_one, zpow_of_nonneg _ h]
  · next h =>
    refine ⟨twoTo_pos _, ?_⟩
    rw [cast_twoTo, zpow_of_not_nonneg _ h, div_eq_mul_inv]

theorem fraction_pos (hm : 0 < (f.magnitude code).1) : 0 < (f.fraction code).1 := by
  obtain ⟨hd, hvalue⟩ := f.fraction_eq code
  have hpos : (0 : ℚ) < (f.fraction code).1 / (f.fraction code).2 := by
    have : (0 : ℚ) < (f.magnitude code).1 := Nat.cast_pos.2 hm
    rw [hvalue]
    positivity
  exact_mod_cast (div_pos_iff_of_pos_right (Nat.cast_pos.2 hd)).1 hpos

/-- Of the two points next to a double on a grid of seventeen digits, one is nearest to it. -/
theorem near_of_neighbours {m low : ℕ} {q lead : ℤ} (hparts : double.Parts code m q)
    (hlead : (10 : ℚ) ^ lead ≤ m * 2 ^ q)
    (hlow : (low * 10 ^ (lead - 16) / 2 ^ q : ℚ) ≤ m)
    (hhigh : (m : ℚ) < (low + 1 : ℕ) * 10 ^ (lead - 16) / 2 ^ q) :
    double.Near m q (low * 10 ^ (lead - 16)) ∨
      double.Near m q ((low + 1 : ℕ) * 10 ^ (lead - 16)) := by
  have hpow : (0 : ℚ) < 2 ^ q := by positivity
  have hstep : (10 ^ (lead - 16) / 2 ^ q : ℚ) ≤ m / 10 ^ 16 := by
    rw [zpow_sub₀ (by norm_num), div_div, div_le_div_iff₀ (by positivity) (by positivity)]
    have : (10 : ℚ) ^ (16 : ℤ) = 10 ^ 16 := by norm_cast
    rw [this]
    nlinarith
  have hnext : ((low + 1 : ℕ) * 10 ^ (lead - 16) / 2 ^ q : ℚ) =
      low * 10 ^ (lead - 16) / 2 ^ q + 10 ^ (lead - 16) / 2 ^ q := by
    push_cast
    ring
  have hbound : (m : ℚ) + 1 ≤ 2 ^ 53 := by
    have hlt : m < 2 ^ 53 := hparts.lt
    exact_mod_cast hlt
  rw [hnext] at hhigh
  by_cases hnarrow : m = twoTo double.fractionBits ∧ double.leastExponent < q
  · have hbelow : double.below m q = 1 / 4 := if_pos hnarrow
    have hm' : (m : ℚ) = 2 ^ 52 := by rw [hnarrow.1, cast_twoTo]; rfl
    rw [hm'] at hstep
    refine .inr ⟨?_, ?_, fun _ => ⟨?_, ?_⟩⟩ <;> rw [hnext] <;> linarith
  · have hbelow : double.below m q = 1 / 2 := if_neg hnarrow
    by_cases hnear : (m : ℚ) - 1 / 2 < low * 10 ^ (lead - 16) / 2 ^ q
    · refine .inl ⟨?_, ?_, fun _ => ⟨?_, ?_⟩⟩ <;> linarith
    · refine .inr ⟨?_, ?_, fun _ => ⟨?_, ?_⟩⟩ <;> rw [hnext] <;> linarith

theorem strip_eq (fuel : ℕ) (x : Scaled) :
    ((x.strip fuel).digits * 10 ^ (x.strip fuel).exponent : ℚ) = x.digits * 10 ^ x.exponent := by
  induction fuel generalizing x with
  | zero => rfl
  | succ fuel ih =>
    rw [Scaled.strip]
    split
    · next h =>
      rw [ih]
      have hdigits : x.digits = x.digits / 10 * 10 := by omega
      have hcast : (x.digits : ℚ) = (x.digits / 10 : ℕ) * 10 := by exact_mod_cast hdigits
      rw [hcast, zpow_add_one₀ (by norm_num)]
      ring
    · rfl

/-- The grid of seventeen digits has a point that reads back. -/
theorem onGrid?_rounding {code : ℕ} (hpos : 0 < code) {lead : ℤ}
    (hlead : (10 : ℚ) ^ lead ≤ (double.magnitude code).1 * 2 ^ (double.magnitude code).2)
    (tie : Tie) : ((double.rounding code).onGrid? tie (lead - 16)).isSome := by
  have hparts := double.parts_magnitude code
  have hm := hparts.pos hpos
  obtain ⟨hlow, hhigh⟩ := (double.proper_rounding code).neighbours_bounds tie (lead - 16)
  have hfour : ((double.rounding code).value : ℚ) = 4 * (double.magnitude code).1 := by
    have : (double.rounding code).value = 4 * (double.magnitude code).1 := rfl
    rw [this, Nat.cast_mul, Nat.cast_ofNat]
  rw [double.div_unit_rounding, hfour] at hlow hhigh
  refine Rounding.onGrid?_isSome ?_
  rw [holds_rounding_iff hm, holds_rounding_iff hm]
  exact near_of_neighbours hparts hlead (by linarith) (by linarith)

/-- The shortest decimal of a double that is not zero is nearest to it. -/
theorem near_shortest {code : ℕ} (hpos : 0 < code) (tie : Tie) :
    double.Near (double.magnitude code).1 (double.magnitude code).2
      ((double.shortest tie code).digits * 10 ^ (double.shortest tie code).exponent) := by
  have hm := (double.parts_magnitude code).pos hpos
  obtain ⟨hd, hvalue⟩ := double.fraction_eq code
  have hlead := leadExponent_le (fraction_pos hm) hd
  rw [hvalue] at hlead
  have hshortest : double.shortest tie code =
      ((double.rounding code).search tie
        (leadExponent (double.fraction code).1 (double.fraction code).2) 17 1).strip 17 :=
    if_neg (Nat.ne_of_gt hpos)
  rw [hshortest, strip_eq]
  generalize leadExponent (double.fraction code).1 (double.fraction code).2 = lead at hlead
  refine (holds_rounding_iff hm).1 (Rounding.holds_search (k := 17) (by decide) (by decide) ?_)
  have hgrid : lead + 1 - ((17 : ℕ) : ℤ) = lead - 16 := by push_cast; ring
  rw [hgrid]
  exact onGrid?_rounding hpos hlead tie

/-- A decimal of the value of the shortest one is read as the double. -/
theorem ofDecimal_eq_of_shortest {code digits : ℕ} {exponent : ℤ} (hpos : 0 < code)
    (hfinite : code < double.infinity) {tie : Tie}
    (h : (digits * 10 ^ exponent : ℚ) =
      (double.shortest tie code).digits * 10 ^ (double.shortest tie code).exponent) :
    double.ofDecimal digits exponent = code := by
  refine ofDecimal_eq (by decide) (double.parts_magnitude code) hpos hfinite ?_
  rw [h]
  exact near_shortest hpos tie

theorem shortest_digits_pos {code : ℕ} (hpos : 0 < code) (tie : Tie) :
    0 < (double.shortest tie code).digits := by
  have hvalue := (near_shortest hpos tie).pos ((double.parts_magnitude code).pos hpos)
  by_contra hnot
  have hzero : (double.shortest tie code).digits = 0 := by omega
  rw [hzero] at hvalue
  simp at hvalue

end Format

end Folio.Decimal
