import RoundRobin.Proofs.Number.Digits

/-!
# Reading a decimal into the nearest double

`Binary64.ofDecimal` reads `digits * 10 ^ exponent` with `ofRatio`, after two
shortcuts: more than 310 decimal places above the point give infinity, and
values below `10 ^ -325` give zero. Both shortcuts agree with rounding, so the
reading is described by the read-back intervals alone: a decimal in the
interval of a double reads as that double (`ofDecimal_of_readsBack`), and every
decimal reads as a double whose interval holds it, or as infinity from
`2 ^ 1024 - 2 ^ 970` up (`ofDecimal_cases`).

A value in the read-back interval of a double is at least as near to it as to
any other double (`ReadsBack.nearest`). The argument is the gap between
neighbouring doubles (`gap_above`, `gap_below`): a double with an exponent
no smaller lies on the grid of `2 ^ e`, and one with a smaller exponent lies
below the whole binade.
-/

namespace RoundRobin

namespace Binary64

-- ---------------------------------------------------------------------------
-- Neighbouring doubles
-- ---------------------------------------------------------------------------

theorem mul_two_zpow_of_le (m' : Nat) {e e' : Int} (h : e ≤ e') :
    (m' : ℚ) * 2 ^ e' = ((m' * 2 ^ (e' - e).toNat : Nat) : ℚ) * 2 ^ e := by
  rw [Nat.cast_mul, Nat.cast_pow, Nat.cast_ofNat, mul_assoc, ← zpow_natCast,
    Int.toNat_of_nonneg (by omega), two_zpow_mul, sub_add_cancel]

theorem le_of_exponent_lt {m' : Nat} {e e' : Int} (hc' : Canonical m' e') (h : e' < e) :
    (m' : ℚ) * 2 ^ e' ≤ (2 ^ 53 - 1) * 2 ^ (e - 1) := by
  have hm' : (m' : ℚ) ≤ 2 ^ 53 - 1 := by
    have := hc'.mantissa_lt
    have : (m' : ℚ) + 1 ≤ 2 ^ 53 := by exact_mod_cast this
    linarith
  have hpow : (2 : ℚ) ^ e' ≤ 2 ^ (e - 1) := zpow_le_zpow_right₀ (by norm_num) (by omega)
  exact mul_le_mul hm' hpow (by positivity) (by norm_num)

theorem two_zpow_eq_mul_two (e : Int) : (2 : ℚ) ^ e = 2 ^ (e - 1) * 2 := by
  rw [← zpow_add_one₀ (by norm_num), sub_add_cancel]

theorem gap_above {m m' : Nat} {e e' : Int} (hc : Canonical m e) (hc' : Canonical m' e')
    (h : (m : ℚ) * 2 ^ e < m' * 2 ^ e') : ((m : ℚ) + 1) * 2 ^ e ≤ m' * 2 ^ e' := by
  have hp : (0 : ℚ) < 2 ^ e := by positivity
  rcases le_or_gt e e' with hle | hlt
  · rw [mul_two_zpow_of_le m' hle] at h ⊢
    have hlt : m < m' * 2 ^ (e' - e).toNat := by exact_mod_cast lt_of_mul_lt_mul_right h hp.le
    have : (m : ℚ) + 1 ≤ ((m' * 2 ^ (e' - e).toNat : Nat) : ℚ) := by exact_mod_cast hlt
    exact mul_le_mul_of_nonneg_right this hp.le
  · -- a smaller exponent cannot reach the binade of `e`, whose mantissas have the hidden bit
    exfalso
    have hm : (2 : ℚ) ^ 52 ≤ m := by exact_mod_cast hc.normal (by have := hc'.least_le; omega)
    have hbelow := le_of_exponent_lt hc' hlt
    have hp1 : (0 : ℚ) < 2 ^ (e - 1) := by positivity
    have hbinade : (2 ^ 53 - 1) * 2 ^ (e - 1) < (2 : ℚ) ^ 52 * 2 ^ e := by
      rw [two_zpow_eq_mul_two e]
      linarith
    have := mul_le_mul_of_nonneg_right hm hp.le
    linarith

theorem gap_below {m m' : Nat} {e e' : Int} (hc : Canonical m e) (hc' : Canonical m' e')
    (h : (m' : ℚ) * 2 ^ e' < m * 2 ^ e) :
    (m' : ℚ) * 2 ^ e' ≤ (m - 2 * halfGapBelow m e) * 2 ^ e := by
  have hp : (0 : ℚ) < 2 ^ e := by positivity
  have hh := halfGapBelow_bounds m e
  rcases le_or_gt e e' with hle | hlt
  · rw [mul_two_zpow_of_le m' hle] at h ⊢
    have hlt : m' * 2 ^ (e' - e).toNat < m := by exact_mod_cast lt_of_mul_lt_mul_right h hp.le
    have : ((m' * 2 ^ (e' - e).toNat : Nat) : ℚ) + 1 ≤ m := by exact_mod_cast hlt
    exact mul_le_mul_of_nonneg_right (by linarith) hp.le
  · -- below the binade: the largest such value is `(2 ^ 53 - 1) * 2 ^ (e - 1)`
    have hnormal : -1074 < e := by have := hc'.least_le; omega
    have hm : 2 ^ 52 ≤ m := hc.normal (by omega)
    have hkey : (2 : ℚ) ^ 53 - 1 ≤ 2 * m - 4 * halfGapBelow m e := by
      unfold halfGapBelow
      split_ifs with hb
      · rw [hb.1]; norm_num
      · have : 2 ^ 52 + 1 ≤ m := by
          by_contra hcon
          exact hb ⟨by omega, hnormal⟩
        have : (2 : ℚ) ^ 52 + 1 ≤ m := by exact_mod_cast this
        linarith
    have hbelow := le_of_exponent_lt hc' hlt
    rw [two_zpow_eq_mul_two e]
    have hp1 : (0 : ℚ) < 2 ^ (e - 1) := by positivity
    calc (m' : ℚ) * 2 ^ e' ≤ (2 ^ 53 - 1) * 2 ^ (e - 1) := hbelow
      _ ≤ (2 * m - 4 * halfGapBelow m e) * 2 ^ (e - 1) := mul_le_mul_of_nonneg_right hkey hp1.le
      _ = (m - 2 * halfGapBelow m e) * (2 ^ (e - 1) * 2) := by ring

-- ---------------------------------------------------------------------------
-- Read-back intervals
-- ---------------------------------------------------------------------------

section ReadsBack

variable {m : Nat} {e : Int} {r : ℚ}

theorem ReadsBack.bounds (hr : ReadsBack m e r) :
    (m - halfGapBelow m e) * 2 ^ e ≤ r ∧ r ≤ (m + 1 / 2) * 2 ^ e := by
  have hp : (0 : ℚ) < 2 ^ e := by positivity
  obtain ⟨hlo, hhi, _⟩ := hr
  exact ⟨(le_div_iff₀ hp).mp hlo, (div_le_iff₀ hp).mp hhi⟩

/-- A value in the read-back interval of a double is at least as near to it
as to any other double. -/
theorem ReadsBack.nearest {m' : Nat} {e' : Int} (hc : Canonical m e) (hr : ReadsBack m e r)
    (hc' : Canonical m' e') : |(m : ℚ) * 2 ^ e - r| ≤ |(m' : ℚ) * 2 ^ e' - r| := by
  obtain ⟨hlo, hhi⟩ := hr.bounds
  have hp : (0 : ℚ) < 2 ^ e := by positivity
  have hh := halfGapBelow_bounds m e
  rcases lt_trichotomy ((m : ℚ) * 2 ^ e) ((m' : ℚ) * 2 ^ e') with hlt | heq | hgt
  · have hgap := gap_above hc hc' hlt
    rw [abs_of_nonneg (a := (m' : ℚ) * 2 ^ e' - r) (by nlinarith), abs_le]
    constructor <;> nlinarith
  · rw [heq]
  · have hgap := gap_below hc hc' hgt
    rw [abs_of_nonpos (a := (m' : ℚ) * 2 ^ e' - r) (by nlinarith), abs_le]
    constructor <;> nlinarith

theorem ReadsBack.half_least_le (hc : Canonical m e) (hr : ReadsBack m e r) (hm : m ≠ 0) :
    (2 : ℚ) ^ (-1075 : Int) ≤ r := by
  obtain ⟨hlo, _⟩ := hr.bounds
  have hh := halfGapBelow_bounds m e
  have hm1 : (1 : ℚ) ≤ m := by exact_mod_cast Nat.one_le_iff_ne_zero.mpr hm
  have hpow : (2 : ℚ) ^ (-1074 : Int) ≤ 2 ^ e := zpow_le_zpow_right₀ (by norm_num) hc.least_le
  have hsplit : (2 : ℚ) ^ (-1074 : Int) = 2 ^ (-1075 : Int) * 2 := by
    rw [two_zpow_eq_mul_two]; norm_num
  have hp : (0 : ℚ) < 2 ^ (-1075 : Int) := by positivity
  nlinarith

theorem ReadsBack.le_threshold (hc : Canonical m e) (hr : ReadsBack m e r) :
    r ≤ 2 ^ 1024 - 2 ^ 970 := by
  obtain ⟨_, hhi⟩ := hr.bounds
  have hm : (m : ℚ) + 1 / 2 ≤ 2 ^ 53 - 1 / 2 := by
    have : (m : ℚ) + 1 ≤ 2 ^ 53 := by exact_mod_cast hc.mantissa_lt
    linarith
  have hpow : (2 : ℚ) ^ e ≤ 2 ^ (971 : Int) := zpow_le_zpow_right₀ (by norm_num) hc.le_top
  rw [← overflow_threshold]
  calc r ≤ (m + 1 / 2) * 2 ^ e := hhi
    _ ≤ (2 ^ 53 - 1 / 2) * 2 ^ (971 : Int) := mul_le_mul hm hpow (by positivity) (by norm_num)

end ReadsBack

theorem canonical_zero : Canonical 0 (-1074) :=
  ⟨by norm_num, le_refl _, by norm_num, fun h => absurd rfl h⟩

theorem readsBack_zero {r : ℚ} (h0 : 0 ≤ r) (h : r ≤ 2 ^ (-1075 : Int)) : ReadsBack 0 (-1074) r := by
  have hp : (0 : ℚ) < 2 ^ (-1074 : Int) := by positivity
  have hsplit : (2 : ℚ) ^ (-1074 : Int) = 2 ^ (-1075 : Int) * 2 := by
    rw [two_zpow_eq_mul_two]; norm_num
  unfold ReadsBack halfGapBelow
  refine ⟨?_, ?_, fun _ => rfl⟩
  · rw [if_neg (by omega), le_div_iff₀ hp, Nat.cast_zero]
    generalize (2 : ℚ) ^ (-1074 : Int) = p at *
    linarith
  · rw [div_le_iff₀ hp, Nat.cast_zero]
    generalize (2 : ℚ) ^ (-1074 : Int) = p at *
    linarith

theorem ofShape_zero (negative : Bool) (e : Int) : ofShape negative 0 e = zero negative := by
  unfold ofShape
  rw [if_pos (by simp only [Nat.pow_eq]; positivity)]
  rfl

theorem shape_infinity (negative : Bool) : (infinity negative).shape = .infinite negative := by
  cases negative <;> decide

theorem shape_zero (negative : Bool) : (zero negative).shape = .finite negative 0 (-1074) := by
  rw [← ofShape_zero negative (-1074), shape_ofShape canonical_zero]

/-- A power as powers of at most `k`. Elaboration evaluates a power only up
to the exponent 256, so the bounds on the powers of two and ten at the ends
of the double range below are split this way before `decide` compares them. -/
theorem pow_eq_pow_div_mul_pow_mod (a n k : Nat) : a ^ n = (a ^ k) ^ (n / k) * a ^ (n % k) := by
  rw [← pow_mul, ← pow_add, Nat.div_add_mod]

-- ---------------------------------------------------------------------------
-- Reading a decimal
-- ---------------------------------------------------------------------------

section OfDecimal

variable {negative : Bool} {D : Nat} {P : Int}

theorem decimal_bounds (hD : 0 < D) :
    (10 : ℚ) ^ ((decimalLength D : Int) - 1 + P) ≤ D * 10 ^ P ∧
      (D : ℚ) * 10 ^ P < 10 ^ ((decimalLength D : Int) + P) := by
  have hp : (0 : ℚ) < 10 ^ P := by positivity
  have hlen := decimalLength_pos D
  have hlo : (10 : ℚ) ^ (decimalLength D - 1) ≤ D := by exact_mod_cast ten_pow_le_of_pos hD
  have hhi : (D : ℚ) < 10 ^ decimalLength D := by exact_mod_cast lt_ten_pow_decimalLength D
  rw [zpow_add₀ (by norm_num), zpow_add₀ (by norm_num),
    show (decimalLength D : Int) - 1 = ((decimalLength D - 1 : Nat) : Int) by omega,
    zpow_natCast, zpow_natCast]
  exact ⟨mul_le_mul_of_nonneg_right hlo hp.le, mul_lt_mul_of_pos_right hhi hp⟩

theorem decimal_eq_ratio (D : Nat) (P : Int) :
    (D : ℚ) * 10 ^ P = ((D * Nat.pow 10 P.toNat : Nat) : ℚ) / (Nat.pow 10 (-P).toNat : Nat) := by
  rw [ten_zpow_eq_div, Nat.cast_mul, mul_div_assoc]

theorem threshold_lt_ten_zpow : (2 : ℚ) ^ 1024 - 2 ^ 970 < 10 ^ (310 : Int) := by
  have h : (2 : ℚ) ^ 1024 < 10 ^ 310 := by
    exact_mod_cast (show (2 : Nat) ^ 1024 < 10 ^ 310 by
      rw [pow_eq_pow_div_mul_pow_mod 2 1024 256, pow_eq_pow_div_mul_pow_mod 10 310 256]
      decide)
  have : (0 : ℚ) < 2 ^ 970 := by positivity
  rw [zpow_ofNat]
  generalize (2 : ℚ) ^ 1024 = A at *
  generalize (2 : ℚ) ^ 970 = B at *
  generalize (10 : ℚ) ^ 310 = C at *
  linarith

theorem ten_zpow_lt_half_least : (10 : ℚ) ^ (-325 : Int) < 2 ^ (-1075 : Int) := by
  have h : (2 : ℚ) ^ 1075 < 10 ^ 325 := by
    exact_mod_cast (show (2 : Nat) ^ 1075 < 10 ^ 325 by
      rw [pow_eq_pow_div_mul_pow_mod 2 1075 256, pow_eq_pow_div_mul_pow_mod 10 325 256]
      decide)
  rw [zpow_neg, zpow_neg, inv_lt_inv₀ (by positivity) (by positivity), zpow_ofNat, zpow_ofNat]
  exact h

theorem ofDecimal_eq_ofRatio (hD : D ≠ 0) (hhi : ¬P + decimalLength D > 310)
    (hlo : ¬P + decimalLength D < -324) :
    ofDecimal negative D P =
      ofRatio negative (D * Nat.pow 10 P.toNat) (Nat.pow 10 (-P).toNat) := by
  unfold ofDecimal
  rw [if_neg hD, if_neg hhi, if_neg hlo]
  split
  · rename_i hP
    rw [show (-P).toNat = 0 by omega, pow_ten_zero]
  · rename_i hP
    rw [show P.toNat = 0 by omega, pow_ten_zero, Nat.mul_one]

theorem ofDecimal_of_readsBack {m : Nat} {e : Int} (hc : Canonical m e)
    (hr : ReadsBack m e ((D : ℚ) * 10 ^ P)) : ofDecimal negative D P = ofShape negative m e := by
  have hzero : (D : ℚ) * 10 ^ P < 2 ^ (-1075 : Int) → ofDecimal negative D P = zero negative →
      ofDecimal negative D P = ofShape negative m e := by
    intro hsmall hz
    have hm : m = 0 := by
      by_contra hm
      exact absurd (hr.half_least_le hc hm) (not_le.mpr hsmall)
    rw [hz, hm, ofShape_zero]
  by_cases hD : D = 0
  · subst hD
    refine hzero (by rw [Nat.cast_zero, zero_mul]; positivity) ?_
    unfold ofDecimal
    rw [if_pos rfl]
  have hD0 : 0 < D := Nat.pos_of_ne_zero hD
  obtain ⟨hlow, hhigh⟩ := decimal_bounds (P := P) hD0
  by_cases hhi : P + decimalLength D > 310
  · -- at least `10 ^ 310`: no read-back interval reaches so far
    exfalso
    have h310 : (10 : ℚ) ^ (310 : Int) ≤ 10 ^ ((decimalLength D : Int) - 1 + P) :=
      zpow_le_zpow_right₀ (by norm_num) (by omega)
    have := hr.le_threshold hc
    have := threshold_lt_ten_zpow
    generalize (2 : ℚ) ^ 1024 - 2 ^ 970 = T at *
    linarith
  by_cases hlo : P + decimalLength D < -324
  · refine hzero ?_ ?_
    · have h325 : (10 : ℚ) ^ ((decimalLength D : Int) + P) ≤ 10 ^ (-325 : Int) :=
        zpow_le_zpow_right₀ (by norm_num) (by omega)
      linarith [ten_zpow_lt_half_least]
    · unfold ofDecimal
      rw [if_neg hD, if_neg hhi, if_pos hlo]
  rw [ofDecimal_eq_ofRatio hD hhi hlo]
  refine ofRatio_of_readsBack hc (Nat.mul_pos hD0 (by simp only [Nat.pow_eq]; positivity))
    (by simp only [Nat.pow_eq]; positivity) ?_
  rwa [← decimal_eq_ratio]

/-- Every decimal other than zero reads as a finite double whose read-back
interval holds it, or as infinity from the overflow threshold up. -/
theorem ofDecimal_cases (hD : D ≠ 0) :
    (∃ m e, Canonical m e ∧ (ofDecimal negative D P).shape = .finite negative m e ∧
        ReadsBack m e ((D : ℚ) * 10 ^ P)) ∨
      (ofDecimal negative D P = infinity negative ∧ 2 ^ 1024 - 2 ^ 970 ≤ (D : ℚ) * 10 ^ P) := by
  have hD0 : 0 < D := Nat.pos_of_ne_zero hD
  obtain ⟨hlow, hhigh⟩ := decimal_bounds (P := P) hD0
  by_cases hhi : P + decimalLength D > 310
  · right
    refine ⟨by unfold ofDecimal; rw [if_neg hD, if_pos hhi], ?_⟩
    have h310 : (10 : ℚ) ^ (310 : Int) ≤ 10 ^ ((decimalLength D : Int) - 1 + P) :=
      zpow_le_zpow_right₀ (by norm_num) (by omega)
    have := threshold_lt_ten_zpow
    generalize (2 : ℚ) ^ 1024 - 2 ^ 970 = T at *
    linarith
  by_cases hlo : P + decimalLength D < -324
  · -- below half the least double: zero, whose interval reaches that far
    left
    have hsmall : (D : ℚ) * 10 ^ P ≤ 2 ^ (-1075 : Int) := by
      have h325 : (10 : ℚ) ^ ((decimalLength D : Int) + P) ≤ 10 ^ (-325 : Int) :=
        zpow_le_zpow_right₀ (by norm_num) (by omega)
      linarith [ten_zpow_lt_half_least]
    refine ⟨0, -1074, canonical_zero, ?_, readsBack_zero (by positivity) hsmall⟩
    have hz : ofDecimal negative D P = ofShape negative 0 (-1074) := by
      rw [ofShape_zero]
      unfold ofDecimal
      rw [if_neg hD, if_neg hhi, if_pos hlo]
    rw [hz, shape_ofShape canonical_zero]
  rw [ofDecimal_eq_ofRatio hD hhi hlo, decimal_eq_ratio]
  exact ofRatio_cases negative (Nat.mul_pos hD0 (by simp only [Nat.pow_eq]; positivity))
    (by simp only [Nat.pow_eq]; positivity)

theorem readsBack_of_ofDecimal_eq {x : Binary64} {m : Nat} {e : Int}
    (h : ofDecimal negative D P = x) {negative' : Bool} (hx : x.shape = .finite negative' m e) :
    negative = negative' ∧ ReadsBack m e ((D : ℚ) * 10 ^ P) := by
  subst h
  by_cases hD : D = 0
  · subst hD
    have hz : ofDecimal negative 0 P = zero negative := by
      unfold ofDecimal
      rw [if_pos rfl]
    rw [hz, shape_zero] at hx
    cases hx
    refine ⟨rfl, ?_⟩
    rw [Nat.cast_zero, zero_mul]
    exact readsBack_zero le_rfl (by positivity)
  · rcases @ofDecimal_cases negative D P hD with ⟨m', e', _, hshape, hr⟩ | ⟨hinf, _⟩
    · rw [hshape] at hx
      cases hx
      exact ⟨rfl, hr⟩
    · rw [hinf, shape_infinity] at hx
      cases hx

end OfDecimal

end Binary64

end RoundRobin
