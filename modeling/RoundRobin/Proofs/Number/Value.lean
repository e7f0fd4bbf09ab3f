import RoundRobin.Config.Archive
import Mathlib.Algebra.Order.Field.Power
import Mathlib.Algebra.Order.Field.Rat
import Mathlib.Tactic.Linarith
import Mathlib.Tactic.NormNum
import Mathlib.Tactic.Positivity

/-!
# The exact value of a double

A finite double denotes the rational `± mantissa * 2 ^ exponent`; a zero of
either sign denotes `0`, and NaN and the infinities denote no rational at
all. `Binary64.value?` gives that value, and the quotient `Binary64.ratio`
that the rounded arithmetic works on is its magnitude.

The mantissa and exponent of a finite double are `Canonical`: the mantissa
is below `2 ^ 53`, the exponent runs from the least one, `-1074`, to `971`,
and the hidden bit `2 ^ 52` is set unless the exponent is the least one.
`Binary64.ofShape` encodes exactly these pairs (`shape_ofShape`) and inverts
`Binary64.shape` on finite patterns (`ofShape_of_shape`).

The archive check `Binary64.inUnitInterval` is membership of the value in
`[0, 1)` (`inUnitInterval_iff`): NaN is refused and a negative zero passes.
-/

namespace RoundRobin

namespace Binary64

def value? (x : Binary64) : Option ℚ :=
  match x.shape with
  | .finite negative m e => some ((if negative then -1 else 1) * m * 2 ^ e)
  | _ => none

theorem natCast_zpow_eq_div (b : Nat) (e : Int) :
    (b : ℚ) ^ e = ((Nat.pow b e.toNat : Nat) : ℚ) / (Nat.pow b (-e).toNat : Nat) := by
  simp only [Nat.pow_eq, Nat.cast_pow]
  rcases le_total 0 e with h | h
  · obtain ⟨n, rfl⟩ := Int.eq_ofNat_of_zero_le h
    simp
  · obtain ⟨n, rfl⟩ := Int.exists_eq_neg_ofNat h
    simp

theorem two_zpow_eq_div (e : Int) :
    (2 : ℚ) ^ e = ((Nat.pow 2 e.toNat : Nat) : ℚ) / (Nat.pow 2 (-e).toNat : Nat) := by
  exact_mod_cast natCast_zpow_eq_div 2 e

theorem mul_two_zpow_lt_one_iff (m : Nat) (e : Int) :
    (m : ℚ) * 2 ^ e < 1 ↔ m * Nat.pow 2 e.toNat < Nat.pow 2 (-e).toNat := by
  have hpos : (0 : ℚ) < (Nat.pow 2 (-e).toNat : Nat) := by
    rw [Nat.pow_eq, Nat.cast_pow]; positivity
  rw [two_zpow_eq_div, ← mul_div_assoc, div_lt_one hpos, ← Nat.cast_mul, Nat.cast_lt]

theorem inUnitInterval_iff (x : Binary64) :
    x.inUnitInterval = true ↔ ∃ v, x.value? = some v ∧ 0 ≤ v ∧ v < 1 := by
  unfold inUnitInterval value?
  cases x.shape with
  | nan => simp
  | infinite negative => simp
  | finite negative m e =>
    have hpow : (0 : ℚ) < 2 ^ e := zpow_pos (by norm_num) e
    by_cases hm : m = 0
    · simp [hm]
    have h0 : (m == 0) = false := by simpa using hm
    cases negative with
    | true =>
      have hneg : (-1 : ℚ) * m * 2 ^ e < 0 := by
        have : (0 : ℚ) < m := by exact_mod_cast Nat.pos_of_ne_zero hm
        nlinarith
      simp only [h0, Bool.not_true, Bool.false_and, Bool.or_false, if_true,
        Option.some.injEq, exists_eq_left', Bool.false_eq_true, false_iff, not_and]
      exact fun h => absurd h (not_le.mpr hneg)
    | false =>
      simp only [h0, Bool.not_false, Bool.true_and, Bool.false_or, decide_eq_true_eq,
        Option.some.injEq, exists_eq_left', Bool.false_eq_true, if_false, one_mul]
      rw [mul_two_zpow_lt_one_iff]
      exact ⟨fun h => ⟨by positivity, h⟩, fun h => h.2⟩

/-! ## Fields of a pattern -/

theorem bits_eq_fields (x : Binary64) :
    x.bits.toNat = (if x.negative then Nat.pow 2 63 else 0) + x.biasedExponent * Nat.pow 2 52 +
      x.fraction := by
  have h := x.bits.toNat_lt
  unfold negative biasedExponent fraction
  simp only [Nat.pow_eq] at *
  norm_num at *
  split <;> omega

theorem eq_of_fields {x y : Binary64} (hs : x.negative = y.negative)
    (hb : x.biasedExponent = y.biasedExponent) (hf : x.fraction = y.fraction) : x = y := by
  obtain ⟨xb⟩ := x
  obtain ⟨yb⟩ := y
  have h := bits_eq_fields ⟨xb⟩
  rw [hs, hb, hf, ← bits_eq_fields ⟨yb⟩] at h
  exact congrArg Binary64.mk (UInt64.toNat_inj.mp h)

section OfFields

variable (negative : Bool) (biased fraction : Nat)

private theorem toNat_ofFields :
    (ofFields negative biased fraction).bits.toNat =
      (if negative then Nat.pow 2 63 else 0) + biased % Nat.pow 2 11 * Nat.pow 2 52 +
        fraction % Nat.pow 2 52 := by
  unfold ofFields
  simp only [Nat.pow_eq]
  norm_num
  cases negative <;> simp <;> omega

@[simp] theorem negative_ofFields : (ofFields negative biased fraction).negative = negative := by
  unfold Binary64.negative
  rw [toNat_ofFields]
  simp only [Nat.pow_eq]
  norm_num
  cases negative <;> simp <;> omega

@[simp] theorem biasedExponent_ofFields :
    (ofFields negative biased fraction).biasedExponent = biased % Nat.pow 2 11 := by
  unfold biasedExponent
  rw [toNat_ofFields]
  simp only [Nat.pow_eq]
  norm_num
  cases negative <;> simp <;> omega

@[simp] theorem fraction_ofFields :
    (ofFields negative biased fraction).fraction = fraction % Nat.pow 2 52 := by
  unfold Binary64.fraction
  rw [toNat_ofFields]
  simp only [Nat.pow_eq]
  norm_num
  cases negative with
  | false => simp
  | true =>
    simp only [if_true]
    omega

end OfFields

/-! ## Canonical mantissas and exponents -/

/-- The mantissa and exponent of a finite double. -/
structure Canonical (m : Nat) (e : Int) : Prop where
  mantissa_lt : m < 2 ^ 53
  least_le : -1074 ≤ e
  le_top : e ≤ 971
  normal : e ≠ -1074 → 2 ^ 52 ≤ m

theorem biasedExponent_lt (x : Binary64) : x.biasedExponent < 2048 := by
  unfold biasedExponent
  simp only [Nat.pow_eq]
  omega

theorem fraction_lt (x : Binary64) : x.fraction < 2 ^ 52 := by
  unfold Binary64.fraction
  simp only [Nat.pow_eq]
  omega

theorem canonical_of_shape {x : Binary64} {negative : Bool} {m : Nat} {e : Int}
    (h : x.shape = .finite negative m e) : Canonical m e := by
  have hb := biasedExponent_lt x
  have hf := fraction_lt x
  unfold shape topExponent leastExponent at h
  split at h
  · split at h <;> cases h
  · split at h
    · cases h
      exact ⟨by omega, by omega, by omega, fun h => absurd rfl h⟩
    · cases h
      simp only [Nat.pow_eq]
      exact ⟨by omega, by omega, by omega, fun _ => by omega⟩

theorem negative_of_shape {x : Binary64} {negative : Bool} {m : Nat} {e : Int}
    (h : x.shape = .finite negative m e) : x.negative = negative := by
  unfold shape at h
  split at h
  · split at h <;> cases h
  · split at h
    all_goals
      cases h
      rfl

theorem ofShape_of_shape {x : Binary64} {negative : Bool} {m : Nat} {e : Int}
    (h : x.shape = .finite negative m e) : ofShape negative m e = x := by
  have hb := biasedExponent_lt x
  have hf := fraction_lt x
  have hs := negative_of_shape h
  unfold shape topExponent leastExponent at h
  split at h
  · split at h <;> cases h
  · split at h
    · cases h
      rename_i hz
      unfold ofShape
      rw [if_pos (by simpa only [Nat.pow_eq] using hf)]
      refine eq_of_fields (by simp) (by simp [hz]) ?_
      simp only [fraction_ofFields, Nat.pow_eq]
      exact Nat.mod_eq_of_lt hf
    · cases h
      rename_i htop hz
      unfold ofShape topExponent
      simp only [Nat.pow_eq] at *
      rw [if_neg (by omega), if_neg (by omega)]
      refine eq_of_fields (by simp) ?_ ?_
      · simp only [biasedExponent_ofFields, Nat.pow_eq]
        omega
      · simp only [fraction_ofFields, Nat.pow_eq]
        omega

theorem shape_ofShape {negative : Bool} {m : Nat} {e : Int} (h : Canonical m e) :
    (ofShape negative m e).shape = .finite negative m e := by
  obtain ⟨hm, hlo, hhi, hnorm⟩ := h
  unfold ofShape
  by_cases hsub : m < Nat.pow 2 52
  · -- only the least exponent has mantissas without the hidden bit
    have he : e = -1074 := by
      by_contra hne
      have := hnorm hne
      simp only [Nat.pow_eq] at hsub
      omega
    rw [if_pos hsub]
    unfold shape topExponent leastExponent
    simp only [negative_ofFields, biasedExponent_ofFields, fraction_ofFields, Nat.pow_eq] at *
    rw [Nat.mod_eq_of_lt hsub, he]
    simp
  · rw [if_neg hsub]
    unfold topExponent
    simp only [Nat.pow_eq] at *
    rw [if_neg (by omega)]
    unfold shape topExponent
    simp only [negative_ofFields, biasedExponent_ofFields, fraction_ofFields, Nat.pow_eq]
    rw [if_neg (by omega), if_neg (by omega)]
    congr 1 <;> omega

end Binary64

end RoundRobin
