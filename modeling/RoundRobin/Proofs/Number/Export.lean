import RoundRobin.Proofs.Number.Diagnostic

/-!
# The export text survives reading

`Binary64.exportText` rounds a finite double to eleven significant digits,
half to even, and writes them in scientific form. `significantOf_eq` says
which decimal that is: for the `p` that puts the value between `10 ^ (p + 10)`
and `10 ^ (p + 11)`, the natural `k` nearest to `value / 10 ^ p`, moved to
the next exponent when it carries to `10 ^ 11`.

Reading the text back gives the double nearest to that decimal, which is no
farther from it than the double written (`ReadsBack.nearest`), so it rounds
to the same eleven digits (`significantOf_of_readsBack`). The one delicate
case is a decimal `10 ^ (p + 10)` read as a double just below it, where the
digit grid is ten times finer; the gap between doubles keeps that double
close enough (`decade_gap`), and at the only exponent where the gap is
coarse, `p = -323`, the double nearest to `10 ^ -313` lies above it.

Above `1.79769313485e308` the eleven digits round up past the overflow
threshold, so the largest doubles read back as infinities
(`readText_exportText_of_gt`).
-/

namespace RoundRobin

namespace Binary64

-- ---------------------------------------------------------------------------
-- Rounding to a count of significant digits
-- ---------------------------------------------------------------------------

theorem ten_zpow_exponent_unique {a b : Int} {v : ℚ} (ha : 10 ^ a ≤ v ∧ v < 10 ^ (a + 1))
    (hb : 10 ^ b ≤ v ∧ v < 10 ^ (b + 1)) : a = b := by
  by_contra hne
  rcases lt_or_gt_of_ne hne with hlt | hlt
  · have : (10 : ℚ) ^ (a + 1) ≤ 10 ^ b := zpow_le_zpow_right₀ (by norm_num) (by omega)
    linarith [ha.2, hb.1]
  · have : (10 : ℚ) ^ (b + 1) ≤ 10 ^ a := zpow_le_zpow_right₀ (by norm_num) (by omega)
    linarith [ha.1, hb.2]

theorem RoundsTo.le_of_lt {s : ℚ} {k N : Nat} (h : RoundsTo s k) (hs : s < N) : k ≤ N := by
  obtain ⟨h1, _, _⟩ := h
  have : (k : ℚ) < N + 1 := by linarith
  exact_mod_cast Nat.lt_succ_iff.mp (by exact_mod_cast this)

theorem RoundsTo.ge_of_le {s : ℚ} {k N : Nat} (h : RoundsTo s k) (hs : (N : ℚ) ≤ s) : N ≤ k := by
  obtain ⟨_, h2, _⟩ := h
  have : (N : ℚ) < k + 1 := by linarith
  exact Nat.lt_succ_iff.mp (by exact_mod_cast this)

theorem RoundsTo.abs_sub_le {s : ℚ} {k : Nat} (h : RoundsTo s k) : |s - k| ≤ 1 / 2 :=
  abs_le.mpr ⟨by linarith [h.1], by linarith [h.2.1]⟩

theorem RoundsTo.of_nearer {a b : ℚ} {k : Nat} (h : RoundsTo a k) (hn : |b - k| ≤ |a - k|) :
    RoundsTo b k := by
  have ha := RoundsTo.abs_sub_le h
  obtain ⟨-, -, htie⟩ := h
  obtain ⟨hb1, hb2⟩ := abs_le.mp (le_trans hn ha)
  refine ⟨by linarith, by linarith, fun hb => htie ?_⟩
  -- at an exact half for `b`, `a` is an exact half too
  have hhalf : |b - k| = 1 / 2 := by
    rcases hb with hb | hb <;> rw [hb] <;> norm_num [abs_of_nonneg, abs_of_nonpos]
  have : |a - k| = 1 / 2 := le_antisymm ha (hhalf ▸ hn)
  rcases abs_eq (by norm_num : (0 : ℚ) ≤ 1 / 2) |>.mp this with h | h
  · right; linarith
  · left; linarith

section Significant

variable {m : Nat} {e : Int} {count : Nat}

theorem significand_ratio (hm : m ≠ 0) :
    0 < m * Nat.pow 2 e.toNat ∧ 0 < Nat.pow 2 (-e).toNat ∧
      ((m * Nat.pow 2 e.toNat : Nat) : ℚ) / (Nat.pow 2 (-e).toNat : Nat) = m * 2 ^ e := by
  refine ⟨?_, by simp only [Nat.pow_eq]; positivity, ?_⟩
  · simp only [Nat.pow_eq]
    have := Nat.pos_of_ne_zero hm
    positivity
  · rw [two_zpow_eq_div, Nat.cast_mul, mul_div_assoc]

/-- `significantOf` rounds at the decade of the value: with the exponent `p`
of its last digit and the natural `k` nearest to `value / 10 ^ p`, it gives
`k * 10 ^ p`, renormalised when `k` carries to `10 ^ count`. -/
theorem significantOf_eq (hm : m ≠ 0) {p : Int} {k : Nat}
    (hlo : (10 : ℚ) ^ (p + count - 1) ≤ m * 2 ^ e) (hhi : (m : ℚ) * 2 ^ e < 10 ^ (p + count))
    (hk : RoundsTo ((m : ℚ) * 2 ^ e / 10 ^ p) k) :
    significantOf m e count =
      if k = 10 ^ count then ⟨10 ^ (count - 1), p + 1⟩ else ⟨k, p⟩ := by
  obtain ⟨hnum, hden, hval⟩ := significand_ratio (e := e) hm
  have hmag : Decimal.magnitude (m * Nat.pow 2 e.toNat) (Nat.pow 2 (-e).toNat) = p + count - 1 := by
    have h := magnitude_spec hnum hden
    rw [hval] at h
    exact ten_zpow_exponent_unique h ⟨hlo, by rwa [sub_add_cancel]⟩
  have hround : Decimal.roundDiv (m * Nat.pow 2 e.toNat) (Nat.pow 2 (-e).toNat) p .toEven = k := by
    have h := @roundsTo_roundDiv (m * Nat.pow 2 e.toNat) _ hden p
    rw [hval] at h
    exact h.unique hk
  unfold significantOf
  rw [if_neg hm]
  dsimp only
  rw [hmag, show p + (count : Int) - 1 - count + 1 = p by omega, hround]
  simp only [Nat.pow_eq]

theorem significantOf_spec (hm : m ≠ 0) :
    ∃ p : Int, ∃ k : Nat, (10 : ℚ) ^ (p + count - 1) ≤ m * 2 ^ e ∧
      (m : ℚ) * 2 ^ e < 10 ^ (p + count) ∧ RoundsTo ((m : ℚ) * 2 ^ e / 10 ^ p) k ∧
      significantOf m e count = if k = 10 ^ count then ⟨10 ^ (count - 1), p + 1⟩ else ⟨k, p⟩ := by
  obtain ⟨hnum, hden, hval⟩ := significand_ratio (e := e) hm
  set q := Decimal.magnitude (m * Nat.pow 2 e.toNat) (Nat.pow 2 (-e).toNat)
  obtain ⟨hlo, hhi⟩ := magnitude_spec hnum hden
  rw [hval] at hlo hhi
  have hk := @roundsTo_roundDiv (m * Nat.pow 2 e.toNat) _ hden (q - count + 1)
  rw [hval] at hk
  have hlo' : (10 : ℚ) ^ (q - count + 1 + count - 1) ≤ m * 2 ^ e := by
    rwa [show q - (count : Int) + 1 + count - 1 = q by omega]
  have hhi' : (m : ℚ) * 2 ^ e < 10 ^ (q - count + 1 + count) := by
    rwa [show q - (count : Int) + 1 + count = q + 1 by omega]
  exact ⟨q - count + 1, _, hlo', hhi', hk, significantOf_eq hm hlo' hhi' hk⟩

theorem roundsTo_digits {p : Int} {k : Nat} (hcount : 1 ≤ count)
    (hlo : (10 : ℚ) ^ (p + count - 1) ≤ m * 2 ^ e) (hhi : (m : ℚ) * 2 ^ e < 10 ^ (p + count))
    (hk : RoundsTo ((m : ℚ) * 2 ^ e / 10 ^ p) k) :
    10 ^ (count - 1) ≤ k ∧ k ≤ 10 ^ count := by
  have hp : (0 : ℚ) < 10 ^ p := by positivity
  have hsplit : ∀ j : Nat, (10 : ℚ) ^ (p + j) = 10 ^ j * 10 ^ p := fun j => by
    rw [zpow_add₀ (by norm_num), zpow_natCast, mul_comm]
  constructor
  · refine RoundsTo.ge_of_le hk ?_
    rw [le_div_iff₀ hp, Nat.cast_pow, Nat.cast_ofNat, ← hsplit,
      show p + ((count - 1 : Nat) : Int) = p + count - 1 by omega]
    exact hlo
  · refine RoundsTo.le_of_lt hk ?_
    rw [div_lt_iff₀ hp, Nat.cast_pow, Nat.cast_ofNat, ← hsplit]
    exact hhi

theorem significantOf_digits_lt (hcount : 1 ≤ count) (m : Nat) (e : Int) :
    (significantOf m e count).digits < 10 ^ count := by
  by_cases hm : m = 0
  · subst hm
    unfold significantOf
    rw [if_pos rfl]
    exact Nat.pow_pos (by norm_num)
  obtain ⟨p, k, hlo, hhi, hk, heq⟩ := @significantOf_spec m e count hm
  have hb := roundsTo_digits hcount hlo hhi hk
  rw [heq]
  split_ifs with hcarry
  · exact Nat.pow_lt_pow_right (by norm_num) (by omega)
  · exact lt_of_le_of_ne hb.2 hcarry

theorem value_of_carry (p : Int) (k : Nat) (hcount : 1 ≤ count) :
    (((if k = 10 ^ count then (⟨10 ^ (count - 1), p + 1⟩ : Decimal) else ⟨k, p⟩).digits : ℚ) *
      10 ^ (if k = 10 ^ count then (⟨10 ^ (count - 1), p + 1⟩ : Decimal) else ⟨k, p⟩).exponent) =
      k * 10 ^ p := by
  split_ifs with hcarry
  · dsimp only
    rw [hcarry, zpow_add_one₀ (by norm_num)]
    push_cast
    rw [show (10 : ℚ) ^ count = 10 ^ (count - 1) * 10 by
      rw [← pow_succ, Nat.sub_add_cancel hcount]]
    ring
  · rfl

end Significant

theorem significantOf_eleven {m : Nat} {e : Int} (hm : m ≠ 0) :
    ∃ p : Int, ∃ k : Nat, (10 : ℚ) ^ (p + 10) ≤ m * 2 ^ e ∧ (m : ℚ) * 2 ^ e < 10 ^ (p + 11) ∧
      RoundsTo ((m : ℚ) * 2 ^ e / 10 ^ p) k ∧ 10 ^ 10 ≤ k ∧ k ≤ 10 ^ 11 ∧
      decimalValue (significantOf m e 11) = k * 10 ^ p ∧
      significantOf m e 11 = if k = 10 ^ 11 then ⟨10 ^ 10, p + 1⟩ else ⟨k, p⟩ := by
  obtain ⟨p, k, hlo, hhi, hk, heq⟩ := @significantOf_spec m e 11 hm
  obtain ⟨hk10, hk11⟩ := roundsTo_digits (by norm_num) hlo hhi hk
  have hval : decimalValue (significantOf m e 11) = k * 10 ^ p := by
    rw [heq]
    exact value_of_carry p k (by norm_num)
  rw [show p + ((11 : Nat) : Int) - 1 = p + 10 by omega] at hlo
  push_cast at hhi
  exact ⟨p, k, hlo, hhi, hk, hk10, hk11, hval, heq⟩

-- ---------------------------------------------------------------------------
-- The decade boundary
-- ---------------------------------------------------------------------------

/-- The double nearest to `10 ^ -313` lies above it: `10 ^ -313` is
`2 ^ 1074 / 10 ^ 313` units of the least double, and the fraction of that
quotient is above one half. -/
theorem ten_zpow_313_rounds_up (m' : Nat) (hbelow : (m' : ℚ) * 2 ^ (-1074 : Int) < 10 ^ (-313 : Int)) :
    ((m' : ℚ) + 1 / 2) * 2 ^ (-1074 : Int) < 10 ^ (-313 : Int) := by
  have hfrac : 10 ^ 313 < 2 * (2 ^ 1074 % 10 ^ 313) := by
    rw [pow_eq_pow_div_mul_pow_mod 10 313 256, pow_eq_pow_div_mul_pow_mod 2 1074 256]
    decide
  have hA : (0 : ℚ) < 2 ^ 1074 := by positivity
  have hB : (0 : ℚ) < 10 ^ 313 := by positivity
  rw [zpow_neg, zpow_neg, zpow_ofNat, zpow_ofNat] at hbelow ⊢
  rw [← div_eq_mul_inv, div_lt_iff₀ hA, inv_mul_eq_div, lt_div_iff₀ hB] at hbelow
  rw [← div_eq_mul_inv, div_lt_iff₀ hA, inv_mul_eq_div, lt_div_iff₀ hB]
  by_contra hup
  have h1 : m' * 10 ^ 313 < 2 ^ 1074 := by exact_mod_cast hbelow
  have h2 : 2 * 2 ^ 1074 ≤ (2 * m' + 1) * 10 ^ 313 := by
    have : (2 : ℚ) ^ 1074 ≤ (m' + 1 / 2) * 10 ^ 313 := not_lt.mp hup
    have : (2 : ℚ) * 2 ^ 1074 ≤ (2 * m' + 1) * 10 ^ 313 := by
      generalize (2 : ℚ) ^ 1074 = A at *
      generalize (10 : ℚ) ^ 313 = B at *
      linarith
    exact_mod_cast this
  have hdiv : 2 ^ 1074 / 10 ^ 313 = m' :=
    Nat.div_eq_of_lt_le (by rw [Nat.mul_comm]; omega) (by rw [Nat.add_mul, Nat.one_mul]; omega)
  have hmod := Nat.mod_add_div (2 ^ 1074) (10 ^ 313)
  rw [hdiv, Nat.mul_comm] at hmod
  omega

theorem least_double_bounds :
    (10 : ℚ) ^ (-324 : Int) < 2 ^ (-1074 : Int) ∧ (2 : ℚ) ^ (-1074 : Int) ≤ 10 ^ (-323 : Int) := by
  have h324 : (2 : ℚ) ^ 1074 < 10 ^ 324 := by
    exact_mod_cast (show (2 : Nat) ^ 1074 < 10 ^ 324 by
      rw [pow_eq_pow_div_mul_pow_mod 2 1074 256, pow_eq_pow_div_mul_pow_mod 10 324 256]
      decide)
  have h323 : (10 : ℚ) ^ 323 ≤ 2 ^ 1074 := by
    exact_mod_cast (show (10 : Nat) ^ 323 ≤ 2 ^ 1074 by
      rw [pow_eq_pow_div_mul_pow_mod 10 323 256, pow_eq_pow_div_mul_pow_mod 2 1074 256]
      decide)
  rw [zpow_neg, zpow_neg, zpow_neg, zpow_ofNat, zpow_ofNat, zpow_ofNat]
  exact ⟨inv_strictAnti₀ (by positivity) h324, inv_anti₀ (by positivity) h323⟩

/-- A double just below a power of ten `10 ^ (p + 10)`, nearest to it, is
within a twentieth of `10 ^ p` of it when a double at most half of `10 ^ p`
above it is no nearer. -/
theorem decade_gap {m m' : Nat} {e e' p : Int} (hc : Canonical m e) (hc' : Canonical m' e')
    (hr : ReadsBack m' e' (10 ^ (p + 10))) (hbelow : (m' : ℚ) * 2 ^ e' < 10 ^ (p + 10))
    (habove : (10 : ℚ) ^ (p + 10) ≤ m * 2 ^ e)
    (hnear : |(m' : ℚ) * 2 ^ e' - 10 ^ (p + 10)| ≤ |(m : ℚ) * 2 ^ e - 10 ^ (p + 10)|)
    (hclose : (m : ℚ) * 2 ^ e - 10 ^ (p + 10) ≤ 10 ^ p / 2) :
    (10 : ℚ) ^ (p + 10) - m' * 2 ^ e' ≤ 10 ^ (p - 1) / 2 := by
  have hup := hr.bounds.2
  rw [abs_of_neg (sub_neg.mpr hbelow), abs_of_nonneg (sub_nonneg.mpr habove), neg_sub] at hnear
  have hP : (0 : ℚ) < 10 ^ (p - 1) := by positivity
  have hp10 : (10 : ℚ) ^ p = 10 ^ (p - 1) * 10 := by
    rw [← zpow_add_one₀ (by norm_num), sub_add_cancel]
  have hr10 : (10 : ℚ) ^ (p + 10) = 10 ^ (p - 1) * 10 ^ 11 := by
    rw [← zpow_natCast, ← zpow_add₀ (by norm_num)]
    congr 1
    omega
  by_cases he' : e' = -1074
  · subst he'
    -- the least gap between doubles bounds `10 ^ p` from below
    have hgap := gap_above hc' hc (by linarith)
    have hulp : (2 : ℚ) ^ (-1074 : Int) ≤ 10 ^ p := by linarith
    obtain ⟨h324, h323⟩ := least_double_bounds
    by_cases hp : -322 ≤ p
    · have hleast : (2 : ℚ) ^ (-1074 : Int) ≤ 10 ^ (p - 1) :=
        le_trans h323 (zpow_le_zpow_right₀ (by norm_num) (by omega))
      linarith
    · -- only `p = -323` is left, where the double nearest to `10 ^ -313` is above it
      exfalso
      have hp' : p = -323 := by
        by_contra hne
        have : (10 : ℚ) ^ p ≤ 10 ^ (-324 : Int) := zpow_le_zpow_right₀ (by norm_num) (by omega)
        linarith
      subst hp'
      rw [show (-323 : Int) + 10 = -313 by norm_num] at hbelow hup
      have h := ten_zpow_313_rounds_up m' hbelow
      linarith
  · -- a normal double: its unit is at most `10 ^ (p + 10) / 2 ^ 52`
    have hm' : (2 : ℚ) ^ 52 ≤ m' := by exact_mod_cast hc'.normal he'
    have hu : (0 : ℚ) < 2 ^ e' := by positivity
    have := mul_le_mul_of_nonneg_right hm' hu.le
    rw [hr10] at hbelow hup ⊢
    nlinarith

-- ---------------------------------------------------------------------------
-- Reading the eleven digits back
-- ---------------------------------------------------------------------------

theorem roundsTo_of_even {s : ℚ} {k : Nat} (hk : k % 2 = 0) (hs : |s - k| ≤ 1 / 2) :
    RoundsTo s k := by
  obtain ⟨h1, h2⟩ := abs_le.mp hs
  exact ⟨by linarith, by linarith, fun _ => hk⟩

theorem abs_div_sub {a k q : ℚ} (hq : 0 < q) : |a / q - k| = |a - k * q| / q := by
  rw [show a / q - k = (a - k * q) / q by field_simp, abs_div, abs_of_pos hq]

theorem ten_zpow_add_natCast (p : Int) (j : Nat) : (10 : ℚ) ^ (p + j) = 10 ^ j * 10 ^ p := by
  rw [zpow_add₀ (by norm_num), zpow_natCast, mul_comm]

theorem roundsTo_of_close {v : ℚ} {q : Int} {k : Nat} (hk : k % 2 = 0)
    (h : |v - k * 10 ^ q| ≤ 10 ^ q / 2) : RoundsTo (v / 10 ^ q) k := by
  have hq : (0 : ℚ) < 10 ^ q := by positivity
  refine roundsTo_of_even hk ?_
  rw [abs_div_sub hq, div_le_iff₀ hq]
  linarith

theorem eq_of_near_below {v u : ℚ} {k N : Nat} (hu : 0 < u) (hk : N ≤ k) (hv : v < N * u)
    (hnear : -(u / 2) ≤ v - k * u) : k = N := by
  have : (k : ℚ) < N + 1 := by
    refine lt_of_not_ge fun h => ?_
    nlinarith
  have : k < N + 1 := by exact_mod_cast this
  omega

theorem eq_of_near_above {v u : ℚ} {k N : Nat} (hu : 0 < u) (hk : k ≤ N) (hv : N * u ≤ v)
    (hnear : v - k * u ≤ u / 2) : k = N := by
  have : (N : ℚ) < k + 1 := by
    refine lt_of_not_ge fun h => ?_
    nlinarith
  have : N < k + 1 := by exact_mod_cast this
  omega

theorem significantOf_above_decade {m' : Nat} {e' p : Int}
    (hlo : (10 : ℚ) ^ (p + 11) ≤ m' * 2 ^ e') (hhi : (m' : ℚ) * 2 ^ e' ≤ 10 ^ (p + 11) + 10 ^ p / 2) :
    significantOf m' e' 11 = ⟨10 ^ 10, p + 1⟩ := by
  have hu : (0 : ℚ) < 10 ^ p := by positivity
  have hm' : m' ≠ 0 := by
    rintro rfl
    rw [Nat.cast_zero, zero_mul] at hlo
    exact absurd hlo (not_le.mpr (by positivity))
  have h11 := ten_zpow_add_natCast p 11
  have h12 := ten_zpow_add_natCast p 12
  have h1 := ten_zpow_add_natCast p 1
  push_cast at h11 h12 h1
  rw [@significantOf_eq m' e' 11 hm' (p + 1) (10 ^ 10) ?_ ?_ ?_, if_neg (by norm_num)]
  · rw [show p + 1 + ((11 : Nat) : Int) - 1 = p + 11 by omega]
    exact hlo
  · rw [show p + 1 + ((11 : Nat) : Int) = p + 12 by omega, h12]
    rw [h11] at hhi
    linarith
  · refine roundsTo_of_close (by norm_num) (abs_le.mpr ⟨?_, ?_⟩) <;>
      rw [h1] at * <;> rw [h11] at hlo hhi <;> push_cast <;> linarith

/-- A double read from `10 ^ (p + 10)` and lying below it is written with the
eleven digits of `10 ^ (p + 10)`, when it is no farther from `10 ^ (p + 10)`
than a double at most half of `10 ^ p` above it. -/
theorem significantOf_below_decade {m m' : Nat} {e e' p : Int} (hc : Canonical m e)
    (hc' : Canonical m' e') (hr : ReadsBack m' e' (10 ^ (p + 10)))
    (hbelow : (m' : ℚ) * 2 ^ e' < 10 ^ (p + 10)) (habove : (10 : ℚ) ^ (p + 10) ≤ m * 2 ^ e)
    (hnear : |(m' : ℚ) * 2 ^ e' - 10 ^ (p + 10)| ≤ |(m : ℚ) * 2 ^ e - 10 ^ (p + 10)|)
    (hclose : (m : ℚ) * 2 ^ e - 10 ^ (p + 10) ≤ 10 ^ p / 2) :
    significantOf m' e' 11 = ⟨10 ^ 10, p⟩ := by
  have hgap := decade_gap hc hc' hr hbelow habove hnear hclose
  have hu : (0 : ℚ) < 10 ^ (p - 1) := by positivity
  have h11 : (10 : ℚ) ^ (p + 10) = 10 ^ 11 * 10 ^ (p - 1) := by
    rw [← ten_zpow_add_natCast]
    congr 1
    omega
  have h10 : (10 : ℚ) ^ (p - 1 + 10) = 10 ^ 10 * 10 ^ (p - 1) := ten_zpow_add_natCast _ 10
  rw [h11] at hbelow hgap
  have hm' : m' ≠ 0 := by
    rintro rfl
    rw [Nat.cast_zero, zero_mul] at hgap
    nlinarith
  rw [@significantOf_eq m' e' 11 hm' (p - 1) (10 ^ 11) ?_ ?_ ?_, if_pos rfl, sub_add_cancel]
  · rw [show p - 1 + ((11 : Nat) : Int) - 1 = p - 1 + 10 by omega, h10]
    nlinarith
  · rw [show p - 1 + ((11 : Nat) : Int) = p + 10 by omega, h11]
    exact hbelow
  · refine roundsTo_of_close (by norm_num) (abs_le.mpr ⟨?_, ?_⟩) <;> push_cast <;> linarith

/-- The double read from the eleven digits of a nonzero double is written
with the same eleven digits. -/
theorem significantOf_of_readsBack {m m' : Nat} {e e' : Int} (hc : Canonical m e)
    (hc' : Canonical m' e') (hm : m ≠ 0)
    (hr : ReadsBack m' e' (decimalValue (significantOf m e 11))) :
    significantOf m' e' 11 = significantOf m e 11 := by
  obtain ⟨p, k, hlo, hhi, hk, hk10, hk11, hval, heq⟩ := significantOf_eleven (e := e) hm
  rw [hval] at hr
  have hu : (0 : ℚ) < 10 ^ p := by positivity
  have h10 := ten_zpow_add_natCast p 10
  have h11 := ten_zpow_add_natCast p 11
  push_cast at h10 h11
  -- the written digits are within half a unit of the double, and the double
  -- read is no farther from them
  have hclose : |(m : ℚ) * 2 ^ e - k * 10 ^ p| ≤ 10 ^ p / 2 := by
    have := RoundsTo.abs_sub_le hk
    rw [abs_div_sub hu, div_le_iff₀ hu] at this
    linarith
  have hnear := ReadsBack.nearest hc' hr hc
  obtain ⟨hv1, hv2⟩ := abs_le.mp (le_trans hnear hclose)
  rcases lt_or_ge ((m' : ℚ) * 2 ^ e') (10 ^ (p + 10)) with hbelow | hge
  · have hk' : k = 10 ^ 10 :=
      eq_of_near_below hu hk10 (by rw [h10] at hbelow; exact_mod_cast hbelow) hv1
    have hr10 : (k : ℚ) * 10 ^ p = 10 ^ (p + 10) := by
      rw [hk', h10]
      push_cast
      ring
    rw [hr10] at hr hnear hclose
    have hclose' : (m : ℚ) * 2 ^ e - 10 ^ (p + 10) ≤ 10 ^ p / 2 := (abs_le.mp hclose).2
    rw [significantOf_below_decade hc hc' hr hbelow hlo hnear hclose', heq, if_neg (by omega), hk']
  rcases lt_or_ge ((m' : ℚ) * 2 ^ e') (10 ^ (p + 11)) with hin | habove
  · have hm' : m' ≠ 0 := by
      rintro rfl
      rw [Nat.cast_zero, zero_mul] at hge
      exact absurd hge (not_le.mpr (by positivity))
    have hk' : RoundsTo ((m' : ℚ) * 2 ^ e' / 10 ^ p) k := by
      refine RoundsTo.of_nearer hk ?_
      rw [abs_div_sub hu, abs_div_sub hu]
      exact div_le_div_of_nonneg_right hnear hu.le
    rw [@significantOf_eq m' e' 11 hm' p k (by rwa [show p + ((11 : Nat) : Int) - 1 = p + 10 by omega])
      (by push_cast; exact hin) hk', heq]
  · have hk' : k = 10 ^ 11 :=
      eq_of_near_above hu hk11 (by rw [h11] at habove; exact_mod_cast habove) hv2
    have hhi' : (m' : ℚ) * 2 ^ e' ≤ 10 ^ (p + 11) + 10 ^ p / 2 := by
      rw [hk'] at hv2
      push_cast at hv2
      linarith
    rw [significantOf_above_decade habove hhi', heq, if_pos hk']

-- ---------------------------------------------------------------------------
-- The export text
-- ---------------------------------------------------------------------------

theorem significantOf_zero (e : Int) (count : Nat) : significantOf 0 e count = ⟨0, 1 - count⟩ := by
  unfold significantOf
  rw [if_pos rfl]

theorem decimalValue_significantOf_pos {m : Nat} {e : Int} (hm : m ≠ 0) :
    0 < decimalValue (significantOf m e 11) := by
  obtain ⟨p, k, -, -, -, hk10, -, hval, -⟩ := significantOf_eleven (e := e) hm
  have hk0 : (0 : ℚ) < k := by exact_mod_cast lt_of_lt_of_le (by positivity) hk10
  rw [hval]
  positivity

theorem isFinite_of_shape_finite {x : Binary64} {negative : Bool} {m : Nat} {e : Int}
    (h : x.shape = .finite negative m e) : x.isFinite = true := by
  unfold isFinite
  rw [h]

theorem exportText_of_finite {x : Binary64} {negative : Bool} {m : Nat} {e : Int}
    (hx : x.shape = .finite negative m e) :
    exportText x = String.ofList ((if negative then ['-'] else []) ++
      Notation.export.digitsText ((significantOf m e 11).digitChars 11)
        ((significantOf m e 11).point 11)) := by
  unfold exportText Notation.fixed exportDigits
  rw [withSpecials_finite _ _ hx]

theorem readText_exportText_of_finite {x : Binary64} {negative : Bool} {m : Nat} {e : Int}
    (hx : x.shape = .finite negative m e) :
    ∃ d, readText (exportText x) = .ok (ofDecimal negative d.digits d.exponent) ∧
      decimalValue d = decimalValue (significantOf m e 11) := by
  set d := significantOf m e 11
  have hlen : (d.digitChars 11).length = 11 := by
    have : decimalLength d.digits ≤ 11 :=
      (decimalLength_le_iff (by norm_num)).mpr (significantOf_digits_lt (by norm_num) m e)
    unfold Decimal.digitChars
    rw [length_decimalDigits, Nat.max_eq_left this]
  have hne : d.digitChars 11 ≠ [] := by
    intro h
    rw [h, List.length_nil] at hlen
    omega
  have hdig : ∀ c ∈ d.digitChars 11, c.isDigit = true := fun _ h => isDigit_of_mem_decimalDigits h
  obtain ⟨d', hread, hval⟩ := readText_digitsText Notation.export (.inl rfl) hne hdig
    (readsAs_scientificText Notation.export (.inl rfl) (.inr (by omega)) hne hdig (d.point 11))
    negative
  refine ⟨d', by rw [exportText_of_finite hx, hread], ?_⟩
  rw [hval, hlen]
  unfold decimalValue Decimal.point Decimal.digitChars
  rw [digitsValue_decimalDigits, add_sub_cancel_left]

theorem threshold_pos : (0 : ℚ) < 2 ^ 1024 - 2 ^ 970 :=
  sub_pos.mpr (pow_lt_pow_right₀ (by norm_num) (by norm_num))

theorem exportText_stable_of_lt {x : Binary64} {negative : Bool} {m : Nat} {e : Int}
    (hx : x.shape = .finite negative m e)
    (hlt : decimalValue (significantOf m e 11) < 2 ^ 1024 - 2 ^ 970) :
    ∃ y, readText (exportText x) = .ok y ∧ y.isFinite = true ∧ exportText y = exportText x := by
  obtain ⟨d, hread, hval⟩ := readText_exportText_of_finite hx
  refine ⟨_, hread, ?_⟩
  by_cases hm : m = 0
  · subst hm
    have hd : d.digits = 0 := by
      have h : (d.digits : ℚ) * 10 ^ d.exponent = 0 := by
        rw [show (d.digits : ℚ) * 10 ^ d.exponent = decimalValue d from rfl, hval,
          significantOf_zero]
        unfold decimalValue
        rw [Nat.cast_zero, zero_mul]
      exact_mod_cast (mul_eq_zero.mp h).resolve_right (by positivity)
    have hy : ofDecimal negative d.digits d.exponent = zero negative := by
      unfold ofDecimal
      rw [if_pos hd]
    have hz := shape_zero negative
    rw [hy, exportText_of_finite hz, exportText_of_finite hx, significantOf_zero,
      significantOf_zero]
    exact ⟨isFinite_of_shape_finite hz, rfl⟩
  · have hpos := decimalValue_significantOf_pos (e := e) hm
    have hD : d.digits ≠ 0 := by
      intro h0
      rw [← hval] at hpos
      unfold decimalValue at hpos
      rw [h0, Nat.cast_zero, zero_mul] at hpos
      exact lt_irrefl _ hpos
    rcases @ofDecimal_cases negative d.digits d.exponent hD with ⟨m', e', hc', hy, hr⟩ | ⟨_, hover⟩
    · have hr' : ReadsBack m' e' (decimalValue (significantOf m e 11)) := by
        rw [← hval]
        exact hr
      rw [exportText_of_finite hy, exportText_of_finite hx,
        significantOf_of_readsBack (canonical_of_shape hx) hc' hm hr']
      exact ⟨isFinite_of_shape_finite hy, rfl⟩
    · have hval' : (d.digits : ℚ) * 10 ^ d.exponent = decimalValue (significantOf m e 11) := hval
      rw [hval'] at hover
      exact absurd hlt (not_lt.mpr hover)

/-- Above the overflow threshold, the export text reads back as the infinity
of the double's sign. -/
theorem readText_exportText_of_gt {x : Binary64} {negative : Bool} {m : Nat} {e : Int}
    (hx : x.shape = .finite negative m e)
    (hgt : 2 ^ 1024 - 2 ^ 970 < decimalValue (significantOf m e 11)) :
    readText (exportText x) = .ok (infinity negative) := by
  obtain ⟨d, hread, hval⟩ := readText_exportText_of_finite hx
  rw [hread]
  replace hval : (d.digits : ℚ) * 10 ^ d.exponent = decimalValue (significantOf m e 11) := hval
  have hD : d.digits ≠ 0 := by
    intro h0
    rw [h0, Nat.cast_zero, zero_mul] at hval
    rw [← hval] at hgt
    exact absurd hgt (not_lt.mpr threshold_pos.le)
  rcases @ofDecimal_cases negative d.digits d.exponent hD with ⟨m', e', hc', _, hr⟩ | ⟨hy, _⟩
  · have hle := ReadsBack.le_threshold hc' hr
    rw [hval] at hle
    exact absurd hgt (not_lt.mpr hle)
  · rw [hy]

-- ---------------------------------------------------------------------------
-- Where the export text overflows
-- ---------------------------------------------------------------------------

theorem value_lt_two_pow {m : Nat} {e : Int} (hc : Canonical m e) : (m : ℚ) * 2 ^ e < 2 ^ 1024 := by
  have hm : (m : ℚ) < 2 ^ 53 := by exact_mod_cast hc.mantissa_lt
  have he : (2 : ℚ) ^ e ≤ 2 ^ (971 : ℤ) := zpow_le_zpow_right₀ (by norm_num) hc.le_top
  calc (m : ℚ) * 2 ^ e < 2 ^ 53 * 2 ^ e := mul_lt_mul_of_pos_right hm (by positivity)
    _ ≤ 2 ^ 53 * 2 ^ (971 : ℤ) := mul_le_mul_of_nonneg_left he (by positivity)
    _ = 2 ^ 1024 := by rw [zpow_ofNat, ← pow_add]

theorem threshold_between :
    (17976931348 : ℚ) * 10 ^ (298 : ℤ) < 2 ^ 1024 - 2 ^ 970 ∧
      (2 : ℚ) ^ 1024 - 2 ^ 970 < 17976931349 * 10 ^ (298 : ℤ) := by
  have h1 : (17976931348 : ℚ) * 10 ^ 298 + 2 ^ 970 < 2 ^ 1024 := by
    exact_mod_cast (show 17976931348 * 10 ^ 298 + 2 ^ 970 < 2 ^ 1024 by
      rw [pow_eq_pow_div_mul_pow_mod 10 298 256, pow_eq_pow_div_mul_pow_mod 2 970 256,
        pow_eq_pow_div_mul_pow_mod 2 1024 256]
      decide)
  have h2 : (2 : ℚ) ^ 1024 < 17976931349 * 10 ^ 298 + 2 ^ 970 := by
    exact_mod_cast (show 2 ^ 1024 < 17976931349 * 10 ^ 298 + 2 ^ 970 by
      rw [pow_eq_pow_div_mul_pow_mod 2 1024 256, pow_eq_pow_div_mul_pow_mod 10 298 256,
        pow_eq_pow_div_mul_pow_mod 2 970 256]
      decide)
  rw [zpow_ofNat]
  generalize (2 : ℚ) ^ 1024 = A at *
  generalize (2 : ℚ) ^ 970 = B at *
  generalize (10 : ℚ) ^ 298 = C at *
  constructor <;> linarith

theorem limit_bounds :
    (10 : ℚ) ^ (308 : ℤ) ≤ 179769313485 * 10 ^ 297 ∧
      (179769313485 : ℚ) * 10 ^ 297 < 10 ^ (309 : ℤ) ∧ (2 : ℚ) ^ 1024 < 10 ^ (309 : ℤ) ∧
      (2 : ℚ) ^ 53 * 2 ^ 970 < 179769313485 * 10 ^ 297 := by
  rw [zpow_ofNat, zpow_ofNat]
  refine ⟨?_, ?_, ?_, ?_⟩
  · exact_mod_cast (show 10 ^ 308 ≤ 179769313485 * 10 ^ 297 by
      rw [pow_eq_pow_div_mul_pow_mod 10 308 256, pow_eq_pow_div_mul_pow_mod 10 297 256]
      decide)
  · exact_mod_cast (show 179769313485 * 10 ^ 297 < 10 ^ 309 by
      rw [pow_eq_pow_div_mul_pow_mod 10 297 256, pow_eq_pow_div_mul_pow_mod 10 309 256]
      decide)
  · exact_mod_cast (show 2 ^ 1024 < 10 ^ 309 by
      rw [pow_eq_pow_div_mul_pow_mod 2 1024 256, pow_eq_pow_div_mul_pow_mod 10 309 256]
      decide)
  · exact_mod_cast (show 2 ^ 53 * 2 ^ 970 < 179769313485 * 10 ^ 297 by
      rw [pow_eq_pow_div_mul_pow_mod 2 970 256, pow_eq_pow_div_mul_pow_mod 10 297 256]
      decide)

theorem limit_eq_half : (179769313485 : ℚ) * 10 ^ 297 = (17976931348 + 1 / 2) * 10 ^ (298 : ℤ) := by
  rw [zpow_ofNat, pow_succ 10 297]
  generalize (10 : ℚ) ^ 297 = A
  ring

theorem decimalValue_significantOf_lt_threshold {m : Nat} {e : Int}
    (hv : (m : ℚ) * 2 ^ e < 179769313485 * 10 ^ 297) :
    decimalValue (significantOf m e 11) < 2 ^ 1024 - 2 ^ 970 := by
  by_cases hm : m = 0
  · subst hm
    rw [significantOf_zero]
    unfold decimalValue
    rw [Nat.cast_zero, zero_mul]
    exact threshold_pos
  obtain ⟨p, k, hlo, -, hk, -, hk11, hval, -⟩ := significantOf_eleven (e := e) hm
  obtain ⟨h308, h309, -, -⟩ := limit_bounds
  have hlow := threshold_between.1
  rw [hval]
  have hp : p ≤ 298 := by
    have h : (10 : ℚ) ^ (p + 10) < 10 ^ (309 : ℤ) := lt_of_le_of_lt hlo (lt_trans hv h309)
    have := (zpow_lt_zpow_iff_right₀ (by norm_num : (1 : ℚ) < 10)).mp h
    omega
  rcases lt_or_eq_of_le hp with hp | rfl
  · -- below the top decade the digits stay under `10 ^ 308`
    have h10 : (10 : ℚ) ^ (308 : ℤ) ≤ 17976931348 * 10 ^ (298 : ℤ) := by
      rw [show (308 : ℤ) = 298 + (10 : Nat) by norm_num, ten_zpow_add_natCast]
      gcongr
      norm_num
    calc (k : ℚ) * 10 ^ p ≤ 10 ^ 11 * 10 ^ p := by
          gcongr
          exact_mod_cast hk11
      _ = 10 ^ (p + (11 : Nat)) := (ten_zpow_add_natCast p 11).symm
      _ ≤ 10 ^ (308 : ℤ) := zpow_le_zpow_right₀ (by norm_num) (by omega)
      _ < 2 ^ 1024 - 2 ^ 970 := lt_of_le_of_lt h10 hlow
  · -- in the top decade the value is below `17976931348.5` units of `10 ^ 298`
    have hu : (0 : ℚ) < 10 ^ (298 : ℤ) := by positivity
    have hs : (m : ℚ) * 2 ^ e / 10 ^ (298 : ℤ) < 17976931348 + 1 / 2 := by
      rw [div_lt_iff₀ hu, ← limit_eq_half]
      exact hv
    have hk' : k ≤ 17976931348 := by
      have : (k : ℚ) < 17976931348 + 1 := by linarith [hk.1]
      exact Nat.lt_succ_iff.mp (by exact_mod_cast this)
    calc (k : ℚ) * 10 ^ (298 : ℤ) ≤ 17976931348 * 10 ^ (298 : ℤ) := by
          gcongr
          exact_mod_cast hk'
      _ < 2 ^ 1024 - 2 ^ 970 := hlow

theorem threshold_lt_decimalValue_significantOf {m : Nat} {e : Int} (hc : Canonical m e)
    (hv : 179769313485 * 10 ^ 297 < (m : ℚ) * 2 ^ e) :
    2 ^ 1024 - 2 ^ 970 < decimalValue (significantOf m e 11) := by
  have hm : m ≠ 0 := by
    rintro rfl
    rw [Nat.cast_zero, zero_mul] at hv
    exact absurd hv (not_lt.mpr (by positivity))
  obtain ⟨p, k, hlo, hhi, hk, -, -, hval, -⟩ := significantOf_eleven (e := e) hm
  obtain ⟨h308, -, h1024, -⟩ := limit_bounds
  have hhigh := threshold_between.2
  have htop := value_lt_two_pow hc
  rw [hval]
  have hp : p = 298 := by
    have h1 : (10 : ℚ) ^ (p + 10) < 10 ^ (309 : ℤ) := lt_of_le_of_lt hlo (lt_trans htop h1024)
    have h2 : (10 : ℚ) ^ (308 : ℤ) < 10 ^ (p + 11) := lt_of_le_of_lt h308 (lt_trans hv hhi)
    have := (zpow_lt_zpow_iff_right₀ (by norm_num : (1 : ℚ) < 10)).mp h1
    have := (zpow_lt_zpow_iff_right₀ (by norm_num : (1 : ℚ) < 10)).mp h2
    omega
  subst hp
  have hu : (0 : ℚ) < 10 ^ (298 : ℤ) := by positivity
  have hs : 17976931348 + 1 / 2 < (m : ℚ) * 2 ^ e / 10 ^ (298 : ℤ) := by
    rw [lt_div_iff₀ hu, ← limit_eq_half]
    exact hv
  have hk' : 17976931349 ≤ k := by
    have : (17976931348 : ℚ) < k := by linarith [hk.2.1]
    exact Nat.succ_le_of_lt (by exact_mod_cast this)
  calc (2 : ℚ) ^ 1024 - 2 ^ 970 < 17976931349 * 10 ^ (298 : ℤ) := hhigh
    _ ≤ k * 10 ^ (298 : ℤ) := by
      gcongr
      exact_mod_cast hk'

theorem value_ne_limit {m : Nat} {e : Int} (hc : Canonical m e) :
    (m : ℚ) * 2 ^ e ≠ 179769313485 * 10 ^ 297 := by
  intro h
  obtain ⟨-, -, -, h1023⟩ := limit_bounds
  have he : e = 971 := by
    by_contra hne
    have hle := le_of_exponent_lt (e := 971) hc (lt_of_le_of_ne hc.le_top hne)
    rw [show (971 : ℤ) - 1 = 970 by norm_num, zpow_ofNat] at hle
    have : (0 : ℚ) < 2 ^ 970 := by positivity
    generalize (2 : ℚ) ^ 970 = B at *
    generalize (10 : ℚ) ^ 297 = C at *
    linarith
  subst he
  rw [zpow_ofNat] at h
  have h' : m * 2 ^ 971 = 179769313485 * 10 ^ 297 := by
    apply Nat.cast_injective (R := ℚ)
    rw [Nat.cast_mul, Nat.cast_pow, Nat.cast_mul, Nat.cast_pow, Nat.cast_ofNat, Nat.cast_ofNat,
      Nat.cast_ofNat]
    exact h
  have hmod : 179769313485 * 10 ^ 297 % 2 ^ 971 ≠ 0 := by
    rw [pow_eq_pow_div_mul_pow_mod 10 297 256, pow_eq_pow_div_mul_pow_mod 2 971 256]
    decide
  rw [← h', Nat.mul_mod_left] at hmod
  exact hmod rfl

-- ---------------------------------------------------------------------------
-- Reading the export text back
-- ---------------------------------------------------------------------------

/-- The export text reads back. NaN reads as the quiet NaN and the infinities
as themselves. A finite double of magnitude below `1.79769313485e308` reads
back as a finite double with the same export text; from there up to the
largest double the eleven digits round past the overflow threshold, and the
text reads as the infinity of the double's sign. -/
theorem exportText_reads_back (x : Binary64) :
    (x.isFinite = false → readText (exportText x) = .ok (if x.isNaN then nan else x)) ∧
      ∀ negative m e, x.shape = .finite negative m e →
        ((m : ℚ) * 2 ^ e < 179769313485 * 10 ^ 297 →
          ∃ y, readText (exportText x) = .ok y ∧ y.isFinite = true ∧ exportText y = exportText x) ∧
        (179769313485 * 10 ^ 297 ≤ (m : ℚ) * 2 ^ e →
          readText (exportText x) = .ok (infinity negative)) := by
  refine ⟨fun hfin => ?_, fun negative m e hx => ⟨fun hlt => ?_, fun hge => ?_⟩⟩
  · cases hs : x.shape with
    | nan =>
      rw [if_pos (isNaN_of_shape_nan hs)]
      unfold exportText Notation.fixed
      rw [withSpecials_nan _ _ hs]
      exact readText_nanText
    | infinite negative =>
      rw [if_neg (by rw [isNaN_of_shape_infinite hs]; decide)]
      unfold exportText Notation.fixed
      -- the text is rewritten before the pattern, which the kernel should not evaluate
      rw [withSpecials_infinite _ _ hs, eq_infinity_of_shape hs]
      exact readText_infinityText negative
    | finite negative m e =>
      rw [isFinite_of_shape_finite hs] at hfin
      exact absurd hfin (by decide)
  · exact exportText_stable_of_lt hx (decimalValue_significantOf_lt_threshold hlt)
  · have hgt := lt_of_le_of_ne hge (Ne.symm (value_ne_limit (canonical_of_shape hx)))
    exact readText_exportText_of_gt hx
      (threshold_lt_decimalValue_significantOf (canonical_of_shape hx) hgt)

/-- The largest double is written `1.7976931349E308`, which reads back as
infinity, not as a finite double. -/
theorem exportText_largest_reads_as_infinity :
    readText (exportText ⟨0x7FEFFFFFFFFFFFFF⟩) = .ok (infinity false) ∧
      (infinity false).isFinite = false := by
  have hx : (⟨0x7FEFFFFFFFFFFFFF⟩ : Binary64).shape = .finite false 9007199254740991 971 := by
    decide
  have hv : 179769313485 * 10 ^ 297 < ((9007199254740991 : Nat) : ℚ) * 2 ^ (971 : ℤ) := by
    rw [zpow_ofNat]
    exact_mod_cast (show 179769313485 * 10 ^ 297 < 9007199254740991 * 2 ^ 971 by
      rw [pow_eq_pow_div_mul_pow_mod 10 297 256, pow_eq_pow_div_mul_pow_mod 2 971 256]
      decide)
  refine ⟨readText_exportText_of_gt hx
    (threshold_lt_decimalValue_significantOf (canonical_of_shape hx) hv), ?_⟩
  unfold isFinite
  rw [shape_infinity]

end Binary64

end RoundRobin
