import RoundRobin.Number.Shortest
import RoundRobin.Proofs.Number.Reading

/-!
# The shortest decimal reads back

`Binary64.Interval.around m e nb` scales the read-back interval of
`m * 2 ^ e` by a common denominator, and `Interval.holds` tests a decimal
against it: for the flag `nb` that `narrowBelow` computes, a decimal holds
exactly when it lies in `ReadsBack m e` (`holds_iff`).

`Interval.withDigits` looks at the two decimals of the `k`-digit grid around
the value. When any decimal of that grid reads back, one of the two does,
since the interval is convex and holds the value (`readsBack_floor_or_succ`),
so `withDigits` finds a decimal exactly when the grid meets the interval. The
grid of seventeen digits is finer than every interval (`seventeen_fine`), and
any decimal with `k` digits that reads back puts a point of the `k`-digit grid
in the interval (`readsBack_on_grid`). Hence `shortestOf` reads back
(`shortestOf_readsBack`) and has no more digits than any decimal that reads
back (`shortestOf_minimal`).
-/

namespace RoundRobin

namespace Binary64

theorem compare_mul_pos {a b c : ℚ} (hc : 0 < c) : compare (a * c) (b * c) = compare a b :=
  compare_congr (mul_lt_mul_iff_of_pos_right hc) (mul_left_inj' hc.ne')

theorem narrowBelow_eq {x : Binary64} {negative : Bool} {m : Nat} {e : Int}
    (h : x.shape = .finite negative m e) : x.narrowBelow = decide (m = 2 ^ 52 ∧ -1074 < e) := by
  have hb := biasedExponent_lt x
  unfold shape topExponent leastExponent at h
  unfold narrowBelow
  split at h
  · split at h <;> cases h
  · split at h
    · cases h
      rename_i hz
      simp [hz]
    · cases h
      rename_i htop hz
      rw [Bool.eq_iff_iff, Bool.and_eq_true, beq_iff_eq, decide_eq_true_eq, decide_eq_true_eq]
      simp only [Nat.pow_eq]
      omega

-- ---------------------------------------------------------------------------
-- The scaled interval
-- ---------------------------------------------------------------------------

section Around

variable {m : Nat} {e : Int} {nb : Bool}

theorem around_den_pos : 0 < (Interval.around m e nb).den := by
  unfold Interval.around
  simp only [Nat.pow_eq]
  positivity

theorem around_value_div :
    ((Interval.around m e nb).value : ℚ) / (Interval.around m e nb).den = m * 2 ^ e := by
  unfold Interval.around
  rw [two_zpow_eq_div]
  simp only [Nat.pow_eq]
  push_cast
  field_simp

theorem around_high_div :
    ((Interval.around m e nb).high : ℚ) / (Interval.around m e nb).den = (m + 1 / 2) * 2 ^ e := by
  unfold Interval.around
  dsimp only
  rw [show 4 * Nat.pow 2 e.toNat / 2 = 2 * Nat.pow 2 e.toNat by omega, two_zpow_eq_div]
  simp only [Nat.pow_eq]
  push_cast
  field_simp
  ring

theorem halfGapBelow_eq (hnb : nb = decide (m = 2 ^ 52 ∧ -1074 < e)) :
    halfGapBelow m e = if nb then 1 / 4 else 1 / 2 := by
  unfold halfGapBelow
  subst hnb
  by_cases h : m = 2 ^ 52 ∧ -1074 < e <;> simp [h]

theorem around_low_div (hm : m ≠ 0) (hnb : nb = decide (m = 2 ^ 52 ∧ -1074 < e)) :
    ((Interval.around m e nb).low : ℚ) / (Interval.around m e nb).den =
      (m - halfGapBelow m e) * 2 ^ e := by
  have hA : 0 < Nat.pow 2 e.toNat := by simp only [Nat.pow_eq]; positivity
  rw [halfGapBelow_eq hnb]
  unfold Interval.around
  dsimp only
  -- the lower end is a natural subtraction; the value is at least twice the gap
  have hle : ∀ c, c ≤ 2 * Nat.pow 2 e.toNat →
      ((4 * m * Nat.pow 2 e.toNat - c : Nat) : ℚ) = 4 * m * Nat.pow 2 e.toNat - c := by
    intro c hc
    have : 2 * Nat.pow 2 e.toNat ≤ 4 * m * Nat.pow 2 e.toNat := by
      have := Nat.pos_of_ne_zero hm
      nlinarith
    rw [Nat.cast_sub (by omega)]
    push_cast
    ring
  cases nb with
  | false =>
    rw [if_neg (by simp), show 4 * Nat.pow 2 e.toNat / 2 = 2 * Nat.pow 2 e.toNat by omega,
      hle _ le_rfl, two_zpow_eq_div]
    simp only [Nat.pow_eq, if_neg Bool.false_ne_true]
    push_cast
    field_simp
    ring
  | true =>
    rw [if_pos rfl, show 4 * Nat.pow 2 e.toNat / 4 = Nat.pow 2 e.toNat by omega,
      hle _ (by omega), two_zpow_eq_div]
    simp only [Nat.pow_eq, if_pos]
    push_cast
    field_simp

theorem holds_iff (hm : m ≠ 0) (hnb : nb = decide (m = 2 ^ 52 ∧ -1074 < e)) (D : Nat) (p : Int) :
    (Interval.around m e nb).holds D p = true ↔ ReadsBack m e (D * 10 ^ p) := by
  have hden : (0 : ℚ) < (Interval.around m e nb).den := by exact_mod_cast around_den_pos
  have hp : (0 : ℚ) < 2 ^ e := by positivity
  have hc : (0 : ℚ) < (Interval.around m e nb).den * 2 ^ e := by positivity
  -- both comparisons are comparisons of `D * 10 ^ p`, in units of `2 ^ e`, with the ends
  have hscale : ∀ (n : Nat) (t : ℚ), (n : ℚ) / (Interval.around m e nb).den = t * 2 ^ e →
      Decimal.comparePow (D * (Interval.around m e nb).den) p n =
        compare ((D : ℚ) * 10 ^ p / 2 ^ e) t := by
    intro n t hn
    rw [comparePow_eq]
    conv_rhs => rw [← compare_mul_pos hc]
    congr 1
    · push_cast
      field_simp
    · rw [div_eq_iff hden.ne'] at hn
      rw [hn]
      ring
  unfold Interval.holds
  rw [hscale _ _ (around_low_div hm hnb), hscale _ _ around_high_div]
  unfold ReadsBack
  generalize (D : ℚ) * 10 ^ p / 2 ^ e = s
  generalize halfGapBelow m e = h
  show (if m % 2 == 0 then _ else _) = true ↔ _
  by_cases heven : m % 2 = 0
  · simp only [heven, beq_self_eq_true, if_true, Bool.and_eq_true, bne_iff_ne, ne_eq,
      compare_lt_iff_lt, compare_gt_iff_gt, not_lt]
    exact ⟨fun h => ⟨h.1, h.2, fun _ => trivial⟩, fun h => ⟨h.1, h.2.1⟩⟩
  · have hodd : (m % 2 == 0) = false := by simpa using heven
    simp only [hodd, Bool.false_eq_true, if_false, Bool.and_eq_true, beq_iff_eq,
      compare_lt_iff_lt, compare_gt_iff_gt]
    constructor
    · rintro ⟨hlo, hhi⟩
      refine ⟨hlo.le, hhi.le, ?_⟩
      rintro (h | h)
      · exact absurd h hlo.ne'
      · exact absurd h hhi.ne
    · rintro ⟨hlo, hhi, htie⟩
      refine ⟨lt_of_le_of_ne hlo fun h => heven (htie (.inl h.symm)),
        lt_of_le_of_ne hhi fun h => heven (htie (.inr h))⟩

end Around

-- ---------------------------------------------------------------------------
-- Convexity and grids
-- ---------------------------------------------------------------------------

section Grid

variable {m : Nat} {e : Int}

theorem ReadsBack.of_between {r r' : ℚ} (hr : ReadsBack m e r)
    (h : r ≤ r' ∧ r' ≤ m * 2 ^ e ∨ m * 2 ^ e ≤ r' ∧ r' ≤ r) : ReadsBack m e r' := by
  have hp : (0 : ℚ) < 2 ^ e := by positivity
  have hh := halfGapBelow_bounds m e
  obtain ⟨hlo, hhi, htie⟩ := hr
  have hv : (m : ℚ) * 2 ^ e / 2 ^ e = m := by field_simp
  rcases h with ⟨h1, h2⟩ | ⟨h1, h2⟩
  · have h1' : r / 2 ^ e ≤ r' / 2 ^ e := div_le_div_of_nonneg_right h1 hp.le
    have h2' : r' / 2 ^ e ≤ m := hv ▸ div_le_div_of_nonneg_right h2 hp.le
    refine ⟨le_trans hlo h1', by linarith, ?_⟩
    rintro (heq | heq)
    · exact htie (.inl (le_antisymm (heq ▸ h1') hlo))
    · linarith
  · have h1' : (m : ℚ) ≤ r' / 2 ^ e := hv ▸ div_le_div_of_nonneg_right h1 hp.le
    have h2' : r' / 2 ^ e ≤ r / 2 ^ e := div_le_div_of_nonneg_right h2 hp.le
    refine ⟨by linarith, le_trans h2' hhi, ?_⟩
    rintro (heq | heq)
    · linarith
    · exact htie (.inr (le_antisymm hhi (heq ▸ h2')))

/-- If some point of the grid of `10 ^ q` reads back, so does one of the two
grid points around the double. -/
theorem readsBack_floor_or_succ {G b : Nat} {q : Int} (hG : ReadsBack m e (G * 10 ^ q))
    (hb : (b : ℚ) * 10 ^ q ≤ m * 2 ^ e ∧ (m : ℚ) * 2 ^ e < (b + 1) * 10 ^ q) :
    ReadsBack m e (b * 10 ^ q) ∨ ReadsBack m e (((b + 1 : Nat) : ℚ) * 10 ^ q) := by
  have hq : (0 : ℚ) < 10 ^ q := by positivity
  rcases le_or_gt G b with hle | hlt
  · left
    refine hG.of_between (.inl ⟨?_, hb.1⟩)
    exact mul_le_mul_of_nonneg_right (by exact_mod_cast hle) hq.le
  · right
    refine hG.of_between (.inr ⟨?_, ?_⟩)
    · push_cast; exact hb.2.le
    · exact mul_le_mul_of_nonneg_right (by exact_mod_cast hlt) hq.le

theorem readsBack_floor_or_succ_of_fine {b : Nat} {q : Int}
    (hb : (b : ℚ) * 10 ^ q ≤ m * 2 ^ e ∧ (m : ℚ) * 2 ^ e < (b + 1) * 10 ^ q)
    (hfine : (10 : ℚ) ^ q < (halfGapBelow m e + 1 / 2) * 2 ^ e) :
    ReadsBack m e (b * 10 ^ q) ∨ ReadsBack m e (((b + 1 : Nat) : ℚ) * 10 ^ q) := by
  have hp : (0 : ℚ) < 2 ^ e := by positivity
  have hh := halfGapBelow_bounds m e
  have hinside : ∀ r : ℚ, (m - halfGapBelow m e) * 2 ^ e < r → r < (m + 1 / 2) * 2 ^ e →
      ReadsBack m e r := by
    intro r hlo hhi
    have hlo' : (m : ℚ) - halfGapBelow m e < r / 2 ^ e := (lt_div_iff₀ hp).mpr hlo
    have hhi' : r / 2 ^ e < (m : ℚ) + 1 / 2 := (div_lt_iff₀ hp).mpr hhi
    refine ⟨hlo'.le, hhi'.le, ?_⟩
    rintro (h | h) <;> linarith
  by_cases hlow : (m - halfGapBelow m e) * 2 ^ e < b * 10 ^ q
  · left
    exact hinside _ hlow (by nlinarith)
  · right
    push_cast
    exact hinside _ (by nlinarith) (by nlinarith)

/-- A decimal with at most `k` digits that reads back puts a point of the
`k`-digit grid at the double's magnitude in the interval. -/
theorem readsBack_on_grid {D k : Nat} {P t : Int} (hr : ReadsBack m e (D * 10 ^ P)) (hD : D ≠ 0)
    (hk : decimalLength D ≤ k) (ht : (10 : ℚ) ^ t ≤ m * 2 ^ e) :
    ∃ G : Nat, ReadsBack m e (G * 10 ^ (t - k + 1)) := by
  rcases le_or_gt (t - k + 1) P with hle | hlt
  · refine ⟨D * 10 ^ (P - (t - k + 1)).toNat, ?_⟩
    convert hr using 1
    push_cast
    rw [mul_assoc, ← zpow_natCast, ← zpow_add₀ (by norm_num), Int.toNat_of_nonneg (by omega),
      sub_add_cancel]
  · -- the decimal lies below `10 ^ t`, which is on the grid and below the double
    refine ⟨10 ^ (k - 1), hr.of_between (.inl ⟨?_, ?_⟩)⟩
    · have hD0 : 0 < D := Nat.pos_of_ne_zero hD
      have hlt' := (decimal_bounds (P := P) hD0).2
      have hpow : (10 : ℚ) ^ ((decimalLength D : Int) + P) ≤ 10 ^ t :=
        zpow_le_zpow_right₀ (by norm_num) (by omega)
      have hgrid : ((10 ^ (k - 1) : Nat) : ℚ) * 10 ^ (t - k + 1) = 10 ^ t := by
        have hk1 : 1 ≤ k := le_trans (decimalLength_pos D) hk
        push_cast
        rw [← zpow_natCast, ← zpow_add₀ (by norm_num)]
        congr 1
        omega
      rw [hgrid]
      linarith
    · have hk1 : 1 ≤ k := by
        by_contra h0
        have : k = 0 := by omega
        subst this
        have := decimalLength_pos D
        omega
      push_cast
      rw [← zpow_natCast, ← zpow_add₀ (by norm_num),
        show ((k - 1 : Nat) : Int) + (t - k + 1) = t by omega]
      exact ht

theorem seventeen_fine (hc : Canonical m e) {t : Int} (ht : (10 : ℚ) ^ t ≤ m * 2 ^ e) :
    (10 : ℚ) ^ (t - (17 : Nat) + 1) < (halfGapBelow m e + 1 / 2) * 2 ^ e := by
  have hp : (0 : ℚ) < 2 ^ e := by positivity
  have hm : (m : ℚ) < (halfGapBelow m e + 1 / 2) * 10 ^ 16 := by
    unfold halfGapBelow
    split_ifs with h
    · rw [h.1]; norm_num
    · have : (m : ℚ) < 2 ^ 53 := by exact_mod_cast hc.mantissa_lt
      linarith
  have hsplit : (10 : ℚ) ^ (t - (17 : Nat) + 1) * 10 ^ 16 = 10 ^ t := by
    rw [← zpow_natCast, ← zpow_add₀ (by norm_num)]
    congr 1
    omega
  have h16 : (0 : ℚ) < 10 ^ 16 := by positivity
  have hprod : (10 : ℚ) ^ (t - (17 : Nat) + 1) * 10 ^ 16 <
      ((halfGapBelow m e + 1 / 2) * 2 ^ e) * 10 ^ 16 := by
    rw [hsplit]
    calc (10 : ℚ) ^ t ≤ m * 2 ^ e := ht
      _ < (halfGapBelow m e + 1 / 2) * 10 ^ 16 * 2 ^ e := mul_lt_mul_of_pos_right hm hp
      _ = ((halfGapBelow m e + 1 / 2) * 2 ^ e) * 10 ^ 16 := by ring
  exact lt_of_mul_lt_mul_right hprod h16.le

end Grid

-- ---------------------------------------------------------------------------
-- Finding the digit count
-- ---------------------------------------------------------------------------

theorem findSome?_range_eq_some {β : Type} {f : Nat → Option β} {n : Nat} {b : β}
    (h : (List.range n).findSome? f = some b) : ∃ a < n, f a = some b ∧ ∀ i < a, f i = none := by
  induction n with
  | zero => simp at h
  | succ n ih =>
    rw [List.range_succ, List.findSome?_append] at h
    cases hfirst : (List.range n).findSome? f with
    | some b' =>
      rw [hfirst, Option.some_or] at h
      obtain ⟨a, ha, hfa, hbefore⟩ := ih (hfirst.trans h)
      exact ⟨a, by omega, hfa, hbefore⟩
    | none =>
      rw [hfirst, Option.none_or, List.findSome?_singleton] at h
      refine ⟨n, by omega, h, fun i hi => ?_⟩
      exact List.findSome?_eq_none_iff.mp hfirst i (List.mem_range.mpr hi)

section WithDigits

variable (I : Interval) (tie : Tie) (k : Nat)

theorem withDigits_eq_some {d : Decimal} (h : I.withDigits tie k = some d) :
    I.holds d.digits d.exponent = true ∧ d.exponent = Decimal.magnitude I.value I.den - k + 1 ∧
      (d.digits = Decimal.floorDiv I.value I.den d.exponent ∨
        d.digits = Decimal.floorDiv I.value I.den d.exponent + 1) := by
  unfold Interval.withDigits at h
  dsimp only at h
  split at h
  · cases h
  · rename_i hb _
    cases h
    exact ⟨hb, rfl, .inl rfl⟩
  · rename_i _ ha
    cases h
    exact ⟨ha, rfl, .inr rfl⟩
  · rename_i hb ha
    split at h
    · cases h
      exact ⟨hb, rfl, .inl rfl⟩
    · cases h
      exact ⟨ha, rfl, .inr rfl⟩
    · split at h
      · cases h
        exact ⟨ha, rfl, .inr rfl⟩
      · cases h
        exact ⟨hb, rfl, .inl rfl⟩

theorem withDigits_isSome
    (h : I.holds (Decimal.floorDiv I.value I.den (Decimal.magnitude I.value I.den - k + 1))
        (Decimal.magnitude I.value I.den - k + 1) = true ∨
      I.holds (Decimal.floorDiv I.value I.den (Decimal.magnitude I.value I.den - k + 1) + 1)
        (Decimal.magnitude I.value I.den - k + 1) = true) :
    (I.withDigits tie k).isSome := by
  unfold Interval.withDigits
  dsimp only
  split
  · rename_i hb ha
    rcases h with h | h
    · rw [h] at hb; cases hb
    · rw [h] at ha; cases ha
  · rfl
  · rfl
  · split
    · rfl
    · rfl
    · split
      · rfl
      · rfl

end WithDigits

-- ---------------------------------------------------------------------------
-- The shortest decimal
-- ---------------------------------------------------------------------------

section ShortestOf

variable {m : Nat} {e : Int} {nb : Bool} {tie : Tie}

theorem floorDiv_around (q : Int) :
    (Decimal.floorDiv (Interval.around m e nb).value (Interval.around m e nb).den q : ℚ) * 10 ^ q ≤
        m * 2 ^ e ∧
      (m : ℚ) * 2 ^ e <
        ((Decimal.floorDiv (Interval.around m e nb).value (Interval.around m e nb).den q : ℚ) + 1) *
          10 ^ q := by
  have hq : (0 : ℚ) < 10 ^ q := by positivity
  obtain ⟨h1, h2⟩ := @floorDiv_spec (Interval.around m e nb).value _ around_den_pos q
  rw [around_value_div] at h1 h2
  exact ⟨(le_div_iff₀ hq).mp h1, (div_lt_iff₀ hq).mp h2⟩

theorem magnitude_around (hm : m ≠ 0) :
    (10 : ℚ) ^ Decimal.magnitude (Interval.around m e nb).value (Interval.around m e nb).den ≤
        m * 2 ^ e ∧
      (m : ℚ) * 2 ^ e <
        10 ^ (Decimal.magnitude (Interval.around m e nb).value (Interval.around m e nb).den + 1) := by
  have hv : 0 < (Interval.around m e nb).value := by
    unfold Interval.around
    simp only [Nat.pow_eq]
    have := Nat.pos_of_ne_zero hm
    positivity
  have h := magnitude_spec hv (@around_den_pos m e nb)
  rwa [around_value_div] at h

theorem withDigits_isSome_of_grid (hm : m ≠ 0) (hnb : nb = decide (m = 2 ^ 52 ∧ -1074 < e))
    {k G : Nat}
    (hG : ReadsBack m e
      (G * 10 ^ (Decimal.magnitude (Interval.around m e nb).value (Interval.around m e nb).den - k + 1))) :
    ((Interval.around m e nb).withDigits tie k).isSome := by
  apply withDigits_isSome
  rw [holds_iff hm hnb, holds_iff hm hnb]
  exact readsBack_floor_or_succ hG (floorDiv_around _)

theorem withDigits_seventeen_isSome (hc : Canonical m e) (hm : m ≠ 0)
    (hnb : nb = decide (m = 2 ^ 52 ∧ -1074 < e)) :
    ((Interval.around m e nb).withDigits tie 17).isSome := by
  apply withDigits_isSome
  rw [holds_iff hm hnb, holds_iff hm hnb]
  exact readsBack_floor_or_succ_of_fine (floorDiv_around _)
    (seventeen_fine hc (magnitude_around hm).1)

theorem shortestOf_eq (hc : Canonical m e) (hm : m ≠ 0) (hnb : nb = decide (m = 2 ^ 52 ∧ -1074 < e)) :
    ∃ a < 17, ∃ d, (Interval.around m e nb).withDigits tie (a + 1) = some d ∧
      (∀ i < a, (Interval.around m e nb).withDigits tie (i + 1) = none) ∧
      shortestOf m e nb tie = ⟨(stripZeros d.digits d.exponent).1, (stripZeros d.digits d.exponent).2⟩ := by
  have hsome : ((List.range 17).findSome?
      fun k => (Interval.around m e nb).withDigits tie (k + 1)).isSome := by
    rw [List.findSome?_isSome_iff]
    exact ⟨16, List.mem_range.mpr (by omega), withDigits_seventeen_isSome hc hm hnb⟩
  obtain ⟨d, hd⟩ := Option.isSome_iff_exists.mp hsome
  obtain ⟨a, ha, hfa, hbefore⟩ := findSome?_range_eq_some hd
  refine ⟨a, ha, d, hfa, hbefore, ?_⟩
  unfold shortestOf Interval.shortest
  rw [if_neg hm, hd]

theorem shortestOf_readsBack (hc : Canonical m e) (hm : m ≠ 0)
    (hnb : nb = decide (m = 2 ^ 52 ∧ -1074 < e)) :
    ReadsBack m e ((shortestOf m e nb tie).digits * 10 ^ (shortestOf m e nb tie).exponent) := by
  obtain ⟨a, _, d, hd, _, heq⟩ := @shortestOf_eq m e nb tie hc hm hnb
  rw [heq]
  dsimp only
  rw [stripZeros_value, ← holds_iff hm hnb]
  exact (withDigits_eq_some _ _ _ hd).1

theorem shortestOf_digits_ne_zero (hc : Canonical m e) (hm : m ≠ 0)
    (hnb : nb = decide (m = 2 ^ 52 ∧ -1074 < e)) : (shortestOf m e nb tie).digits ≠ 0 := by
  intro h0
  have hr := @shortestOf_readsBack m e nb tie hc hm hnb
  rw [h0, Nat.cast_zero, zero_mul] at hr
  have := hr.half_least_le hc hm
  have : (0 : ℚ) < 2 ^ (-1075 : Int) := by positivity
  linarith

theorem withDigits_strip_lt (hm : m ≠ 0) {k : Nat} (hk : 1 ≤ k) {d : Decimal}
    (hd : (Interval.around m e nb).withDigits tie k = some d) :
    (stripZeros d.digits d.exponent).1 < 10 ^ k := by
  obtain ⟨_, hexp, hdig⟩ := withDigits_eq_some _ _ _ hd
  obtain ⟨_, hhi⟩ := @floorDiv_around m e nb d.exponent
  have hmag := (@magnitude_around m e nb hm).2
  -- the value lies below `10 ^ k` points of the grid, so the floor does too
  have hfloor : Decimal.floorDiv (Interval.around m e nb).value (Interval.around m e nb).den
      d.exponent < 10 ^ k := by
    have hq : (0 : ℚ) < 10 ^ d.exponent := by positivity
    have hgrid : (10 : ℚ) ^ (Decimal.magnitude (Interval.around m e nb).value
        (Interval.around m e nb).den + 1) = 10 ^ k * 10 ^ d.exponent := by
      rw [hexp, ← zpow_natCast, ← zpow_add₀ (by norm_num)]
      congr 1
      omega
    have hle := (@floorDiv_around m e nb d.exponent).1
    have : ((Decimal.floorDiv (Interval.around m e nb).value (Interval.around m e nb).den
        d.exponent : Nat) : ℚ) < 10 ^ k := by
      rw [hgrid] at hmag
      exact lt_of_mul_lt_mul_right (lt_of_le_of_lt hle hmag) hq.le
    exact_mod_cast this
  rcases Nat.lt_or_ge d.digits (10 ^ k) with hlt | hge
  · exact lt_of_le_of_lt (stripZeros_fst_le _ _) hlt
  · -- the next point is `10 ^ k` itself, which loses a trailing zero
    have h10 : d.digits = 10 ^ k := by omega
    rw [h10]
    unfold stripZeros
    rw [dif_pos ⟨by positivity, by
      rw [show k = (k - 1) + 1 by omega, Nat.pow_succ, Nat.mul_mod_left]⟩]
    have := stripZeros_fst_le (10 ^ k / 10) (d.exponent + 1)
    have : 10 ^ k / 10 < 10 ^ k := Nat.div_lt_self (by positivity) (by omega)
    omega

theorem shortestOf_minimal (hc : Canonical m e) (hm : m ≠ 0)
    (hnb : nb = decide (m = 2 ^ 52 ∧ -1074 < e)) {D : Nat} {P : Int}
    (hr : ReadsBack m e (D * 10 ^ P)) :
    decimalLength (shortestOf m e nb tie).digits ≤ decimalLength D := by
  have hD : D ≠ 0 := by
    rintro rfl
    rw [Nat.cast_zero, zero_mul] at hr
    have := hr.half_least_le hc hm
    have : (0 : ℚ) < 2 ^ (-1075 : Int) := by positivity
    linarith
  obtain ⟨a, ha, d, hd, hbefore, heq⟩ := @shortestOf_eq m e nb tie hc hm hnb
  have hlen : decimalLength (shortestOf m e nb tie).digits ≤ a + 1 := by
    rw [heq, decimalLength_le_iff (by omega)]
    exact withDigits_strip_lt hm (by omega) hd
  by_contra hlt
  -- fewer digits than `a + 1`: that count already had a grid point in the interval
  have hj := decimalLength_pos D
  obtain ⟨G, hG⟩ := readsBack_on_grid hr hD le_rfl (@magnitude_around m e nb hm).1
  have hsome := @withDigits_isSome_of_grid m e nb tie hm hnb _ _ hG
  rw [show decimalLength D = (decimalLength D - 1) + 1 by omega,
    hbefore _ (by omega)] at hsome
  cases hsome

end ShortestOf

end Binary64

end RoundRobin
