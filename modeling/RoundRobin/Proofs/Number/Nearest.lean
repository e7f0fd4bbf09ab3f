import RoundRobin.Number.Nearest
import RoundRobin.Proofs.Number.Value
import Mathlib.Tactic.FieldSimp
import Mathlib.Tactic.Ring

/-!
# Rounding to the nearest double

`Binary64.ofRatio` rounds `num / den` in three steps: `unitExponent` picks the
exponent `q` of the last mantissa bit, `scaledDiv` divides by `den * 2 ^ q`,
and the quotient is rounded half to even. This module states each step as a
fact about the rational `num / den`:

* `scaledDiv_value`: the quotient and remainder are those of `num / den / 2 ^ q`;
* `unitExponent_spec`: at `q` the scaled value lies below `2 ^ 53`, and at
  least at `2 ^ 52` unless `q` is the least exponent;
* `roundsTo_rounded`: the rounded quotient is the natural nearest to the
  scaled value, `RoundsTo`, which determines it (`RoundsTo.unique`).
-/

namespace RoundRobin

/-- `k` is the natural nearest to `s`; at an exact half, the even one. -/
def RoundsTo (s : ℚ) (k : Nat) : Prop :=
  (k : ℚ) - 1 / 2 ≤ s ∧ s ≤ k + 1 / 2 ∧ (s = k - 1 / 2 ∨ s = k + 1 / 2 → k % 2 = 0)

namespace RoundsTo

/-- Two naturals within one half of the same value, each even at an exact
half, are the same. -/
theorem unique {s : ℚ} {k k' : Nat} (h : RoundsTo s k) (h' : RoundsTo s k') : k = k' := by
  obtain ⟨h1, h2, h3⟩ := h
  obtain ⟨h1', h2', h3'⟩ := h'
  by_contra hne
  rcases Nat.lt_or_gt_of_ne hne with hlt | hlt
  · -- `k < k'` leaves room only for `s = k + 1/2 = k' - 1/2`
    have hk : (k : ℚ) + 1 ≤ k' := by exact_mod_cast hlt
    have hs : s = k + 1 / 2 := by linarith
    have hk' : (k' : ℚ) = k + 1 := by linarith
    have hnat : k' = k + 1 := by exact_mod_cast hk'
    have := h3 (.inr hs)
    have := h3' (.inl (by linarith))
    omega
  · have hk : (k' : ℚ) + 1 ≤ k := by exact_mod_cast hlt
    have hs : s = k' + 1 / 2 := by linarith
    have hk' : (k : ℚ) = k' + 1 := by linarith
    have hnat : k = k' + 1 := by exact_mod_cast hk'
    have := h3' (.inr hs)
    have := h3 (.inl (by linarith))
    omega

end RoundsTo

theorem roundsTo_rounded {q r d : Nat} (hr : r < d) :
    RoundsTo (q + r / d) (if Tie.toEven.roundsUp q r d then q + 1 else q) := by
  have hd : (0 : ℚ) < d := by exact_mod_cast Nat.lt_of_le_of_lt (Nat.zero_le r) hr
  have hfrac : (r : ℚ) / d < 1 := (div_lt_one hd).mpr (by exact_mod_cast hr)
  have hfrac0 : (0 : ℚ) ≤ r / d := by positivity
  have half_iff : ∀ {a : Nat}, ((a : ℚ) / d = 1 / 2 ↔ 2 * a = d) := by
    intro a
    rw [div_eq_iff hd.ne']
    constructor
    · intro h; exact_mod_cast (by linarith : (2 * a : ℚ) = d)
    · intro h; have : (2 * a : ℚ) = d := by exact_mod_cast h
      linarith
  unfold Tie.roundsUp
  by_cases hgt : 2 * r > d
  · have : (1 : ℚ) / 2 < r / d := by
      rw [lt_div_iff₀ hd]; have : (d : ℚ) < 2 * r := by exact_mod_cast hgt
      linarith
    simp only [hgt, if_true]
    unfold RoundsTo
    push_cast
    refine ⟨by linarith, by linarith, fun h => ?_⟩
    exfalso
    rcases h with h | h <;> linarith
  · by_cases hlt : 2 * r < d
    · have : (r : ℚ) / d < 1 / 2 := by
        rw [div_lt_iff₀ hd]; have : (2 * r : ℚ) < d := by exact_mod_cast hlt
        linarith
      simp only [hgt, hlt, if_true, if_false, Bool.false_eq_true]
      refine ⟨by linarith, by linarith, fun h => ?_⟩
      exfalso
      rcases h with h | h <;> linarith
    · have heq : 2 * r = d := by omega
      have hhalf : (r : ℚ) / d = 1 / 2 := half_iff.mpr heq
      simp only [hgt, hlt, if_false]
      by_cases hodd : q % 2 = 1
      · simp only [hodd, beq_self_eq_true, if_true]
        unfold RoundsTo
        push_cast
        refine ⟨by linarith, by linarith, fun _ => by omega⟩
      · simp only [show (q % 2 == 1) = false by simpa using hodd, if_false, Bool.false_eq_true]
        refine ⟨by linarith, by linarith, fun _ => by omega⟩

namespace Binary64

variable {num den : Nat}

theorem div_add_mod_div (n c : Nat) (hc : 0 < c) :
    ((n / c : Nat) : ℚ) + ((n % c : Nat) : ℚ) / c = (n : ℚ) / c := by
  have hc' : (c : ℚ) ≠ 0 := by exact_mod_cast hc.ne'
  rw [eq_div_iff hc', add_mul, div_mul_cancel₀ _ hc']
  exact_mod_cast (by rw [Nat.mul_comm]; exact Nat.div_add_mod n c)

theorem scaledDiv_value (hden : 0 < den) (q : Int) :
    (scaledDiv num den q).2.1 < (scaledDiv num den q).2.2 ∧
      ((scaledDiv num den q).1 : ℚ) + (scaledDiv num den q).2.1 / (scaledDiv num den q).2.2 =
        (num : ℚ) / den / 2 ^ q := by
  have h2 : ∀ k : Nat, 0 < Nat.pow 2 k := fun k => by rw [Nat.pow_eq]; positivity
  unfold scaledDiv
  rw [two_zpow_eq_div]
  split
  · rename_i hq
    have hd : 0 < den * Nat.pow 2 q.toNat := Nat.mul_pos hden (h2 _)
    refine ⟨Nat.mod_lt _ hd, ?_⟩
    rw [div_add_mod_div _ _ hd, show (-q).toNat = 0 by omega]
    push_cast
    rw [zero_add, div_one, div_div]
  · rename_i hq
    refine ⟨Nat.mod_lt _ hden, ?_⟩
    rw [div_add_mod_div _ _ hden, show q.toNat = 0 by omega]
    have hp : ((Nat.pow 2 (-q).toNat : Nat) : ℚ) ≠ 0 := by exact_mod_cast (h2 _).ne'
    push_cast
    field_simp
    rw [zero_add, mul_one]

/-! ## The exponent of the last mantissa bit -/

theorem div_zpow_le_half {r : ℚ} (hr : 0 ≤ r) {q q' : Int} (h : q < q') :
    r / 2 ^ q' ≤ r / 2 ^ q / 2 := by
  have h2 : (2 : ℚ) ≤ 2 ^ (q' - q) := by
    calc (2 : ℚ) = 2 ^ (1 : Int) := by norm_num
      _ ≤ 2 ^ (q' - q) := zpow_le_zpow_right₀ (by norm_num) (by omega)
  rw [show q' = q + (q' - q) by omega, zpow_add₀ (by norm_num), ← div_div]
  exact div_le_div_of_nonneg_left (by positivity) (by norm_num) h2

theorem div_zpow_eq_mul (r : ℚ) (q q' : Int) : r / 2 ^ q' = r / 2 ^ q * 2 ^ (q - q') := by
  have h : (2 : ℚ) ^ q = 2 ^ q' * 2 ^ (q - q') := by
    rw [← zpow_add₀ (by norm_num)]
    congr 1
    omega
  rw [h]
  field_simp

/-- `q` is the exponent of the last mantissa bit of `r`: from the least
exponent on, the scaled value `r / 2 ^ q` lies below `2 ^ 53`, and at `2 ^ 52`
or above unless `q` is the least exponent. -/
def UnitExponent (r : ℚ) (q : Int) : Prop :=
  -1074 ≤ q ∧ r / 2 ^ q < 2 ^ 53 ∧ (-1074 < q → 2 ^ 52 ≤ r / 2 ^ q)

theorem UnitExponent.unique {r : ℚ} (hr : 0 ≤ r) {q q' : Int} (h : UnitExponent r q)
    (h' : UnitExponent r q') : q = q' := by
  obtain ⟨hq, hlt, hge⟩ := h
  obtain ⟨hq', hlt', hge'⟩ := h'
  by_contra hne
  rcases Int.lt_or_gt_of_ne hne with hqq | hqq
  · have := hge' (by omega)
    have := div_zpow_le_half hr hqq
    linarith
  · have := hge (by omega)
    have := div_zpow_le_half hr hqq
    linarith

theorem log2_bounds {n : Nat} (hn : 0 < n) :
    (2 : ℚ) ^ (n.log2 : Int) ≤ n ∧ (n : ℚ) < 2 ^ ((n.log2 : Int) + 1) := by
  have h1 := Nat.log2_self_le (Nat.pos_iff_ne_zero.mp hn)
  have h2 := @Nat.lt_log2_self n
  constructor
  · rw [zpow_natCast]
    exact_mod_cast h1
  · rw [show ((n.log2 : Int) + 1) = ((n.log2 + 1 : Nat) : Int) by omega, zpow_natCast]
    exact_mod_cast h2

theorem two_zpow_mul (i j : Int) : (2 : ℚ) ^ i * 2 ^ j = 2 ^ (i + j) :=
  (zpow_add₀ (by norm_num) i j).symm

theorem unitExponent_spec (hnum : 0 < num) (hden : 0 < den) :
    UnitExponent ((num : ℚ) / den) (unitExponent num den) := by
  set r : ℚ := (num : ℚ) / den with hr
  have hr0 : 0 < r := by positivity
  have hden' : (0 : ℚ) < den := by exact_mod_cast hden
  obtain ⟨hna, hnb⟩ := log2_bounds hnum
  obtain ⟨hda, hdb⟩ := log2_bounds hden
  set a : Int := (num.log2 : Int)
  set b : Int := (den.log2 : Int)
  -- the first guess puts the scaled value strictly between `2 ^ 51` and `2 ^ 53`
  set q0 : Int := a - b - 52 with hq0
  have hlow : (2 : ℚ) ^ (a - b - 1) < r := by
    rw [hr, lt_div_iff₀ hden']
    calc (2 : ℚ) ^ (a - b - 1) * den < 2 ^ (a - b - 1) * 2 ^ (b + 1) :=
          mul_lt_mul_of_pos_left hdb (by positivity)
      _ = 2 ^ a := by rw [two_zpow_mul]; congr 1; omega
      _ ≤ num := hna
  have hhigh : r < 2 ^ (a - b + 1) := by
    rw [hr, div_lt_iff₀ hden']
    calc (num : ℚ) < 2 ^ (a + 1) := hnb
      _ = 2 ^ (a - b + 1) * 2 ^ b := by rw [two_zpow_mul]; congr 1; omega
      _ ≤ 2 ^ (a - b + 1) * den := mul_le_mul_of_nonneg_left hda (by positivity)
  have hs0 : 2 ^ 51 < r / 2 ^ q0 ∧ r / 2 ^ q0 < 2 ^ 53 := by
    have h51 : (2 : ℚ) ^ 51 * 2 ^ q0 = 2 ^ (a - b - 1) := by
      rw [← zpow_natCast, two_zpow_mul]; congr 1; omega
    have h53 : (2 : ℚ) ^ 53 * 2 ^ q0 = 2 ^ (a - b + 1) := by
      rw [← zpow_natCast, two_zpow_mul]; congr 1; omega
    constructor
    · rw [lt_div_iff₀ (by positivity), h51]; exact hlow
    · rw [div_lt_iff₀ (by positivity), h53]; exact hhigh
  obtain ⟨hrem, hval⟩ := @scaledDiv_value num den hden q0
  have hfloor : ((scaledDiv num den q0).1 : ℚ) ≤ r / 2 ^ q0 ∧
      r / 2 ^ q0 < (scaledDiv num den q0).1 + 1 := by
    rw [← hval]
    have h0 : (0 : ℚ) ≤ (scaledDiv num den q0).2.1 / (scaledDiv num den q0).2.2 := by positivity
    have h1 : ((scaledDiv num den q0).2.1 : ℚ) / (scaledDiv num den q0).2.2 < 1 :=
      (div_lt_one (by exact_mod_cast Nat.lt_of_le_of_lt (Nat.zero_le _) hrem)).mpr
        (by exact_mod_cast hrem)
    constructor <;> linarith
  set q1 : Int := if (scaledDiv num den q0).1 < Nat.pow 2 52 then q0 - 1 else q0 with hq1
  have hs1 : 2 ^ 52 ≤ r / 2 ^ q1 ∧ r / 2 ^ q1 < 2 ^ 53 := by
    rw [hq1]
    split
    · rename_i hsmall
      have hsmall' : ((scaledDiv num den q0).1 : ℚ) + 1 ≤ 2 ^ 52 := by
        rw [Nat.pow_eq] at hsmall; exact_mod_cast hsmall
      rw [div_zpow_eq_mul r q0 (q0 - 1), show q0 - (q0 - 1) = 1 by omega, zpow_one]
      constructor <;> linarith
    · rename_i hbig
      have hbig' : (2 : ℚ) ^ 52 ≤ (scaledDiv num den q0).1 := by
        rw [Nat.pow_eq] at hbig; exact_mod_cast Nat.le_of_not_lt hbig
      constructor <;> linarith
  have hunit : unitExponent num den = max q1 (-1074) := rfl
  rw [hunit]
  by_cases hq : -1074 ≤ q1
  · rw [max_eq_left hq]
    exact ⟨hq, hs1.2, fun _ => hs1.1⟩
  · -- below the least exponent the value is subnormal: scaled at the least exponent it is small
    rw [max_eq_right (by omega)]
    have := div_zpow_le_half hr0.le (show q1 < -1074 by omega)
    refine ⟨le_refl _, by linarith, fun h => absurd h (lt_irrefl _)⟩

/-! ## The values that read back as a double -/

/-- Half the distance from `m * 2 ^ e` down to the next smaller double, in
units of `2 ^ e`: a quarter at the bottom of a binade above the least
normal, where the gap below is half a unit, and a half otherwise. -/
def halfGapBelow (m : Nat) (e : Int) : ℚ := if m = 2 ^ 52 ∧ -1074 < e then 1 / 4 else 1 / 2

/-- The values `r` that round to the double `m * 2 ^ e`: measured in units of
`2 ^ e`, within half the gap to each neighbour, the ends included when the
mantissa is even. -/
def ReadsBack (m : Nat) (e : Int) (r : ℚ) : Prop :=
  m - halfGapBelow m e ≤ r / 2 ^ e ∧ r / 2 ^ e ≤ m + 1 / 2 ∧
    (r / 2 ^ e = m - halfGapBelow m e ∨ r / 2 ^ e = m + 1 / 2 → m % 2 = 0)

theorem halfGapBelow_bounds (m : Nat) (e : Int) :
    1 / 4 ≤ halfGapBelow m e ∧ halfGapBelow m e ≤ 1 / 2 := by
  unfold halfGapBelow
  split <;> constructor <;> norm_num

/-- Unless the value lies below the power of two at the bottom of its binade,
reading back as `m` is rounding to `m`: the narrower gap below such a power
matters only under it. -/
theorem readsBack_iff_roundsTo {m : Nat} {e : Int} {r : ℚ}
    (hn : m = 2 ^ 52 → -1074 < e → 2 ^ 52 ≤ r / 2 ^ e) :
    ReadsBack m e r ↔ RoundsTo (r / 2 ^ e) m := by
  unfold ReadsBack halfGapBelow
  split
  · -- at `m = 2 ^ 52` the value is at least `m`, and `m` is even: only the upper bound counts
    rename_i hnarrow
    have hs : (m : ℚ) ≤ r / 2 ^ e := by
      have := hn hnarrow.1 hnarrow.2
      rw [hnarrow.1]; push_cast; exact this
    have heven : m % 2 = 0 := by rw [hnarrow.1]; rfl
    constructor
    · rintro ⟨-, hhi, -⟩
      exact ⟨by linarith, hhi, fun _ => heven⟩
    · rintro ⟨-, hhi, -⟩
      exact ⟨by linarith, hhi, fun _ => heven⟩
  · exact Iff.rfl

theorem roundsTo_scaledDiv (hden : 0 < den) (q : Int) :
    RoundsTo ((num : ℚ) / den / 2 ^ q)
      (if Tie.toEven.roundsUp (scaledDiv num den q).1 (scaledDiv num den q).2.1
          (scaledDiv num den q).2.2 then (scaledDiv num den q).1 + 1
        else (scaledDiv num den q).1) := by
  obtain ⟨hrem, hval⟩ := @scaledDiv_value num den hden q
  rw [← hval]
  exact roundsTo_rounded hrem

theorem ofRatio_eq (negative : Bool) (hnum : 0 < num) (hden : 0 < den) :
    ofRatio negative num den =
      let q := unitExponent num den
      let m := if Tie.toEven.roundsUp (scaledDiv num den q).1 (scaledDiv num den q).2.1
          (scaledDiv num den q).2.2 then (scaledDiv num den q).1 + 1 else (scaledDiv num den q).1
      if m = Nat.pow 2 53 then ofShape negative (Nat.pow 2 52) (q + 1) else ofShape negative m q := by
  unfold ofRatio
  rw [if_neg (by omega)]

theorem ofRatio_of_readsBack {negative : Bool} {m : Nat} {e : Int} (hc : Canonical m e)
    (hnum : 0 < num) (hden : 0 < den) (hr : ReadsBack m e ((num : ℚ) / den)) :
    ofRatio negative num den = ofShape negative m e := by
  set r : ℚ := (num : ℚ) / den with hrdef
  have hr0 : 0 < r := by positivity
  obtain ⟨hlo, hhi, htie⟩ := hr
  obtain ⟨hm53, hle, hge, hnorm⟩ := hc
  have hm53' : (m : ℚ) + 1 ≤ 2 ^ 53 := by exact_mod_cast hm53
  obtain ⟨hg1, hg2⟩ := halfGapBelow_bounds m e
  rw [ofRatio_eq negative hnum hden]
  dsimp only
  by_cases hlow : m = 2 ^ 52 ∧ -1074 < e ∧ r / 2 ^ e < 2 ^ 52
  · -- just below a power of two the mantissa rounds up into the binade of `m`
    obtain ⟨rfl, he, hr52⟩ := hlow
    have hgap : halfGapBelow (2 ^ 52) e = 1 / 4 := if_pos ⟨rfl, he⟩
    rw [hgap] at hlo
    have hscale : r / 2 ^ (e - 1) = r / 2 ^ e * 2 := by
      rw [div_zpow_eq_mul r e (e - 1), show e - (e - 1) = 1 by omega, zpow_one]
    have hq : unitExponent num den = e - 1 := by
      refine UnitExponent.unique hr0.le (unitExponent_spec hnum hden) ⟨by omega, ?_, fun _ => ?_⟩
      · rw [hscale]; linarith
      · rw [hscale]; push_cast at hlo ⊢; linarith
    have hround : RoundsTo (r / 2 ^ (e - 1)) (2 ^ 53) := by
      rw [hscale]
      push_cast at hlo hr52 ⊢
      refine ⟨by linarith, by linarith, fun _ => by norm_num⟩
    rw [hq, RoundsTo.unique (roundsTo_scaledDiv hden (e - 1)) hround, if_pos (by rw [Nat.pow_eq]),
      Nat.pow_eq, show e - 1 + 1 = e by omega]
  · have hn : m = 2 ^ 52 → -1074 < e → 2 ^ 52 ≤ r / 2 ^ e := fun hm he =>
      not_lt.mp fun hsmall => hlow ⟨hm, he, hsmall⟩
    have hq : unitExponent num den = e := by
      refine UnitExponent.unique hr0.le (unitExponent_spec hnum hden)
        ⟨hle, by linarith, fun he => ?_⟩
      by_cases h52 : m = 2 ^ 52
      · exact hn h52 he
      · have : (2 : ℚ) ^ 52 + 1 ≤ m := by
          have := hnorm (by omega)
          exact_mod_cast (by omega : 2 ^ 52 + 1 ≤ m)
        linarith
    have hround : RoundsTo (r / 2 ^ e) m := (readsBack_iff_roundsTo hn).mp ⟨hlo, hhi, htie⟩
    rw [hq, RoundsTo.unique (roundsTo_scaledDiv hden e) hround,
      if_neg (by rw [Nat.pow_eq]; omega)]

theorem ofShape_of_top {negative : Bool} {m : Nat} {e : Int} (hm : 2 ^ 52 ≤ m) (he : 971 < e) :
    ofShape negative m e = infinity negative := by
  unfold ofShape topExponent
  rw [if_neg (by rw [Nat.pow_eq]; omega), if_pos (by omega)]

theorem overflow_threshold : ((2 : ℚ) ^ 53 - 1 / 2) * 2 ^ (971 : Int) = 2 ^ 1024 - 2 ^ 970 := by
  -- the powers are too large to evaluate: count them in units of `2 ^ 970`
  have h971 : (2 : ℚ) ^ 971 = 2 * 2 ^ 970 := pow_succ' 2 970
  have h1024 : (2 : ℚ) ^ 1024 = 2 ^ 54 * 2 ^ 970 := by rw [← pow_add]
  rw [zpow_ofNat, h971, h1024]
  generalize (2 : ℚ) ^ 970 = X
  ring

theorem overflow_threshold_le : (2 : ℚ) ^ 1024 - 2 ^ 970 ≤ 2 ^ 52 * 2 ^ (972 : Int) := by
  have h972 : (2 : ℚ) ^ 972 = 4 * 2 ^ 970 := by rw [show 972 = 2 + 970 by rfl, pow_add]; norm_num
  have h1024 : (2 : ℚ) ^ 1024 = 2 ^ 54 * 2 ^ 970 := by rw [← pow_add]
  have hpos : (0 : ℚ) < 2 ^ 970 := by positivity
  rw [zpow_ofNat, h972, h1024]
  generalize (2 : ℚ) ^ 970 = X at hpos ⊢
  linarith

theorem ofRatio_cases (negative : Bool) (hnum : 0 < num) (hden : 0 < den) :
    (∃ m e, Canonical m e ∧ (ofRatio negative num den).shape = .finite negative m e ∧
        ReadsBack m e ((num : ℚ) / den)) ∨
      (ofRatio negative num den = infinity negative ∧ 2 ^ 1024 - 2 ^ 970 ≤ (num : ℚ) / den) := by
  set r : ℚ := (num : ℚ) / den with hrdef
  have hr0 : 0 < r := by positivity
  obtain ⟨hq, hlt53, hge52⟩ := unitExponent_spec hnum hden
  have hround := @roundsTo_scaledDiv num den hden (unitExponent num den)
  rw [ofRatio_eq negative hnum hden]
  dsimp only
  set q := unitExponent num den
  set k := if Tie.toEven.roundsUp (scaledDiv num den q).1 (scaledDiv num den q).2.1
      (scaledDiv num den q).2.2 then (scaledDiv num den q).1 + 1 else (scaledDiv num den q).1
  obtain ⟨hk1, hk2, hktie⟩ := hround
  have hpq : (0 : ℚ) < 2 ^ q := by positivity
  have hr : r = r / 2 ^ q * 2 ^ q := (div_mul_cancel₀ r hpq.ne').symm
  have hk53 : k ≤ 2 ^ 53 := by
    have : (k : ℚ) < 2 ^ 53 + 1 := by linarith
    exact_mod_cast Nat.lt_succ_iff.mp (by exact_mod_cast this)
  by_cases hk : k = 2 ^ 53
  · -- the mantissa carried: the value lies just below `2 ^ 53` units
    rw [if_pos (by rw [hk, Nat.pow_eq]), Nat.pow_eq]
    have hs : (2 : ℚ) ^ 53 - 1 / 2 ≤ r / 2 ^ q := by
      have := hk1; rw [hk] at this; push_cast at this; exact this
    by_cases htop : q + 1 ≤ 971
    · left
      have hc : Canonical (2 ^ 52) (q + 1) := ⟨by norm_num, by omega, htop, fun _ => le_refl _⟩
      refine ⟨2 ^ 52, q + 1, hc, shape_ofShape hc, ?_⟩
      have hgap : halfGapBelow (2 ^ 52) (q + 1) = 1 / 4 := if_pos ⟨rfl, by omega⟩
      have hscale : r / 2 ^ (q + 1) = r / 2 ^ q / 2 := by
        rw [zpow_add_one₀ (by norm_num), ← div_div]
      unfold ReadsBack
      rw [hgap, hscale]
      push_cast
      refine ⟨by linarith, by linarith, fun _ => by norm_num⟩
    · right
      refine ⟨ofShape_of_top (le_refl _) (by omega), ?_⟩
      rw [← overflow_threshold, hr]
      exact mul_le_mul hs (zpow_le_zpow_right₀ (by norm_num) (by omega)) (by positivity)
        (by linarith)
  · have hk53' : k < 2 ^ 53 := Nat.lt_of_le_of_ne hk53 hk
    rw [if_neg (by rw [Nat.pow_eq]; exact hk)]
    have hnorm : q ≠ -1074 → 2 ^ 52 ≤ k := by
      intro hne
      have := hge52 (by omega)
      have : ((2 ^ 52 : Nat) : ℚ) < k + 1 := by push_cast; linarith
      exact Nat.lt_succ_iff.mp (by exact_mod_cast this)
    by_cases htop : q ≤ 971
    · left
      have hc : Canonical k q := ⟨hk53', hq, htop, hnorm⟩
      exact ⟨k, q, hc, shape_ofShape hc,
        (readsBack_iff_roundsTo fun _ he => hge52 he).mpr ⟨hk1, hk2, hktie⟩⟩
    · right
      refine ⟨ofShape_of_top (hnorm (by omega)) (by omega), ?_⟩
      have hs := hge52 (by omega)
      rw [hr]
      calc (2 : ℚ) ^ 1024 - 2 ^ 970 ≤ 2 ^ 52 * 2 ^ (972 : Int) := overflow_threshold_le
        _ ≤ r / 2 ^ q * 2 ^ q :=
          mul_le_mul hs (zpow_le_zpow_right₀ (by norm_num) (by omega)) (by positivity)
            (by linarith)

end Binary64

end RoundRobin
