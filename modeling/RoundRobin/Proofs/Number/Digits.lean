import RoundRobin.Number.Decimal
import RoundRobin.Number.Reading
import RoundRobin.Proofs.Number.Nearest

/-!
# Decimal digits and powers of ten

The decimal side of the number texts: `decimalLength n` is the number of
digits that `Nat.toDigits` writes for `n` (`length_toDigits`), so
`10 ^ (decimalLength n - 1) ≤ n < 10 ^ decimalLength n` for positive `n`;
reading digits back with `Binary64.digitsValue` inverts writing them, also
with leading zeros (`digitsValue_decimalDigits`). The exact comparisons and
divisions by powers of ten of `Decimal` are stated as facts about rationals:
`comparePow_eq`, `floorDiv_spec`, `roundsTo_roundDiv` and `magnitude_spec`.
-/

namespace RoundRobin

/-! ## Decimal length -/

theorem length_toDigits (n : Nat) : (Nat.toDigits 10 n).length = decimalLength n := by
  fun_induction decimalLength n with
  | case1 n hn => rw [Nat.toDigits_of_lt_base hn]; rfl
  | case2 n hn ih =>
    rw [Nat.toDigits_of_base_le (by omega) (by omega), List.length_append, ih]
    rfl

theorem lt_ten_pow_decimalLength (n : Nat) : n < 10 ^ decimalLength n := by
  rw [← Nat.length_toDigits_le_iff (by omega) (decimalLength_pos n), length_toDigits]

theorem ten_pow_le_of_pos {n : Nat} (hn : 0 < n) : 10 ^ (decimalLength n - 1) ≤ n := by
  by_cases h1 : decimalLength n = 1
  · rw [h1]; exact hn
  · have hpos := decimalLength_pos n
    refine Nat.le_of_not_lt fun hlt => ?_
    have := (Nat.length_toDigits_le_iff (by omega) (by omega)).mpr hlt
    rw [length_toDigits] at this
    omega

theorem decimalLength_of_lt {n : Nat} (h : n < 10) : decimalLength n = 1 := by
  unfold decimalLength
  rw [if_pos h]

theorem decimalLength_le_iff {n k : Nat} (hk : 0 < k) : decimalLength n ≤ k ↔ n < 10 ^ k := by
  rw [← length_toDigits, Nat.length_toDigits_le_iff (by omega) hk]

/-! ## Digit strings -/

theorem digitsValue_eq (ds : List Char) : Binary64.digitsValue ds = Nat.ofDigitChars 10 ds 0 := by
  unfold Binary64.digitsValue
  rw [Nat.ofDigitChars_eq_foldl]
  congr 1
  funext acc c
  rw [Nat.mul_comm]

theorem digitsValue_append (as bs : List Char) :
    Binary64.digitsValue (as ++ bs) =
      Binary64.digitsValue as * 10 ^ bs.length + Binary64.digitsValue bs := by
  rw [digitsValue_eq, digitsValue_eq, digitsValue_eq, Nat.ofDigitChars_append,
    Nat.ofDigitChars_eq_ofDigitChars_zero, Nat.mul_comm]

@[simp] theorem digitsValue_replicate_zero (k : Nat) :
    Binary64.digitsValue (List.replicate k '0') = 0 := by
  rw [digitsValue_eq, Nat.ofDigitChars_replicate_zero, Nat.mul_zero]

@[simp] theorem digitsValue_toDigits (n : Nat) : Binary64.digitsValue (Nat.toDigits 10 n) = n := by
  rw [digitsValue_eq, Nat.ofDigitChars_ten_toDigits]

@[simp] theorem digitsValue_decimalDigits (n width : Nat) :
    Binary64.digitsValue (decimalDigits n width) = n := by
  unfold decimalDigits
  rw [digitsValue_append, digitsValue_replicate_zero, Nat.zero_mul, Nat.zero_add,
    digitsValue_toDigits]

theorem isDigit_of_mem_decimalDigits {n width : Nat} {c : Char} (h : c ∈ decimalDigits n width) :
    c.isDigit = true := by
  unfold decimalDigits at h
  rcases List.mem_append.mp h with h | h
  · rw [List.eq_of_mem_replicate h]; rfl
  · exact Nat.isDigit_of_mem_toDigits (by omega) (by omega) h

theorem length_decimalDigits (n width : Nat) :
    (decimalDigits n width).length = max width (decimalLength n) := by
  unfold decimalDigits
  rw [List.length_append, List.length_replicate, length_toDigits]
  omega

/-! ## Comparing and dividing with powers of ten -/

theorem compare_congr {α β : Type} [LinearOrder α] [LinearOrder β] {a b : α} {c d : β}
    (hlt : a < b ↔ c < d) (heq : a = b ↔ c = d) : compare a b = compare c d := by
  rcases lt_trichotomy a b with h | h | h
  · rw [compare_lt_iff_lt.mpr h, compare_lt_iff_lt.mpr (hlt.mp h)]
  · rw [compare_eq_iff_eq.mpr h, compare_eq_iff_eq.mpr (heq.mp h)]
  · have hcd : d < c := lt_of_le_of_ne (not_lt.mp fun h' => absurd (hlt.mpr h') (not_lt.mpr h.le))
      fun h' => absurd (heq.mpr h'.symm) (ne_of_gt h)
    rw [compare_gt_iff_gt.mpr h, compare_gt_iff_gt.mpr hcd]

theorem ten_zpow_eq_div (p : Int) :
    (10 : ℚ) ^ p = ((Nat.pow 10 p.toNat : Nat) : ℚ) / (Nat.pow 10 (-p).toNat : Nat) := by
  exact_mod_cast Binary64.natCast_zpow_eq_div 10 p

theorem pow_ten_zero : Nat.pow 10 0 = 1 := rfl

theorem comparePow_eq (a : Nat) (p : Int) (b : Nat) :
    Decimal.comparePow a p b = compare ((a : ℚ) * 10 ^ p) b := by
  unfold Decimal.comparePow
  have h10 : ∀ k : Nat, (0 : ℚ) < (Nat.pow 10 k : Nat) := fun k => by
    rw [Nat.pow_eq, Nat.cast_pow]; positivity
  rw [ten_zpow_eq_div]
  split
  · rename_i hp
    rw [show (-p).toNat = 0 by omega, pow_ten_zero, Nat.cast_one, div_one, ← Nat.cast_mul]
    exact compare_congr Nat.cast_lt.symm Nat.cast_inj.symm
  · rename_i hp
    rw [show p.toNat = 0 by omega, pow_ten_zero, Nat.cast_one, ← div_eq_mul_one_div]
    refine compare_congr ?_ ?_
    · rw [div_lt_iff₀ (h10 _), ← Nat.cast_mul, Nat.cast_lt]
    · rw [div_eq_iff (h10 _).ne', ← Nat.cast_mul, Nat.cast_inj]

theorem nat_div_bounds (n c : Nat) (hc : 0 < c) :
    ((n / c : Nat) : ℚ) ≤ (n : ℚ) / c ∧ (n : ℚ) / c < (n / c : Nat) + 1 := by
  rw [← Binary64.div_add_mod_div n c hc]
  have hc' : (0 : ℚ) < c := by exact_mod_cast hc
  have h0 : (0 : ℚ) ≤ ((n % c : Nat) : ℚ) / c := by positivity
  have h1 : ((n % c : Nat) : ℚ) / c < 1 := (div_lt_one hc').mpr (by exact_mod_cast Nat.mod_lt n hc)
  constructor <;> linarith

theorem div_ten_zpow_eq (num den : Nat) (p : Int) :
    (num : ℚ) / den / 10 ^ p =
      ((num * Nat.pow 10 (-p).toNat : Nat) : ℚ) / ((den * Nat.pow 10 p.toNat : Nat) : ℚ) := by
  rw [ten_zpow_eq_div, div_div_eq_mul_div, div_mul_eq_mul_div, div_div, Nat.cast_mul,
    Nat.cast_mul]

theorem floorDiv_spec {num den : Nat} (hden : 0 < den) (p : Int) :
    (Decimal.floorDiv num den p : ℚ) ≤ (num : ℚ) / den / 10 ^ p ∧
      (num : ℚ) / den / 10 ^ p < Decimal.floorDiv num den p + 1 := by
  have h10 : ∀ k : Nat, 0 < Nat.pow 10 k := fun k => by rw [Nat.pow_eq]; positivity
  rw [div_ten_zpow_eq]
  unfold Decimal.floorDiv
  split
  · rename_i hp
    rw [show (-p).toNat = 0 by omega, pow_ten_zero, Nat.mul_one]
    exact nat_div_bounds _ _ (Nat.mul_pos hden (h10 _))
  · rename_i hp
    rw [show p.toNat = 0 by omega, pow_ten_zero, Nat.mul_one]
    exact nat_div_bounds _ _ hden

theorem roundsTo_divRound (n d : Nat) (hd : 0 < d) :
    RoundsTo ((n : ℚ) / d) (divRound n d .toEven) := by
  rw [← Binary64.div_add_mod_div n d hd]
  exact roundsTo_rounded (Nat.mod_lt n hd)

theorem roundsTo_roundDiv {num den : Nat} (hden : 0 < den) (p : Int) :
    RoundsTo ((num : ℚ) / den / 10 ^ p) (Decimal.roundDiv num den p .toEven) := by
  have h10 : ∀ k : Nat, 0 < Nat.pow 10 k := fun k => by rw [Nat.pow_eq]; positivity
  rw [div_ten_zpow_eq]
  unfold Decimal.roundDiv
  split
  · rename_i hp
    rw [show (-p).toNat = 0 by omega, pow_ten_zero, Nat.mul_one]
    exact roundsTo_divRound _ _ (Nat.mul_pos hden (h10 _))
  · rename_i hp
    rw [show p.toNat = 0 by omega, pow_ten_zero, Nat.mul_one]
    exact roundsTo_divRound _ _ hden

theorem ten_zpow_sub (a b : Nat) : (10 : ℚ) ^ ((a : Int) - b) = 10 ^ a / 10 ^ b := by
  rw [zpow_sub₀ (by norm_num), zpow_natCast, zpow_natCast]

theorem magnitude_spec {num den : Nat} (hnum : 0 < num) (hden : 0 < den) :
    (10 : ℚ) ^ Decimal.magnitude num den ≤ (num : ℚ) / den ∧
      (num : ℚ) / den < 10 ^ (Decimal.magnitude num den + 1) := by
  have hln := decimalLength_pos num
  have hld := decimalLength_pos den
  -- the digit counts bound the ratio within a factor of ten either way
  have hn1 : (10 : ℚ) ^ (decimalLength num - 1) ≤ num := by exact_mod_cast ten_pow_le_of_pos hnum
  have hn2 : (num : ℚ) < 10 ^ decimalLength num := by exact_mod_cast lt_ten_pow_decimalLength num
  have hd1 : (10 : ℚ) ^ (decimalLength den - 1) ≤ den := by exact_mod_cast ten_pow_le_of_pos hden
  have hd2 : (den : ℚ) < 10 ^ decimalLength den := by exact_mod_cast lt_ten_pow_decimalLength den
  have hnum' : (0 : ℚ) < num := by exact_mod_cast hnum
  have hden' : (0 : ℚ) < den := by exact_mod_cast hden
  have hlow : (10 : ℚ) ^ ((decimalLength num : Int) - decimalLength den - 1) < (num : ℚ) / den := by
    rw [show (decimalLength num : Int) - decimalLength den - 1 =
      ((decimalLength num - 1 : Nat) : Int) - decimalLength den by omega, ten_zpow_sub,
      div_lt_div_iff₀ (by positivity) hden']
    calc (10 : ℚ) ^ (decimalLength num - 1) * den ≤ num * den := by gcongr
      _ < num * 10 ^ decimalLength den := by gcongr
  have hhigh : (num : ℚ) / den < 10 ^ ((decimalLength num : Int) - decimalLength den + 1) := by
    rw [show (decimalLength num : Int) - decimalLength den + 1 =
      (decimalLength num : Int) - (decimalLength den - 1 : Nat) by omega, ten_zpow_sub,
      div_lt_div_iff₀ hden' (by positivity)]
    calc (num : ℚ) * 10 ^ (decimalLength den - 1) < 10 ^ decimalLength num * 10 ^ (decimalLength den - 1) := by gcongr
      _ ≤ 10 ^ decimalLength num * den := by gcongr
  unfold Decimal.magnitude
  dsimp only
  rw [comparePow_eq]
  split
  · rename_i hgt
    have hlt : (num : ℚ) / den < 10 ^ ((decimalLength num : Int) - decimalLength den) := by
      rw [div_lt_iff₀ hden', mul_comm]
      exact compare_gt_iff_gt.mp (beq_iff_eq.mp hgt)
    rw [sub_add_cancel]
    exact ⟨hlow.le, hlt⟩
  · rename_i hgt
    have hle : (10 : ℚ) ^ ((decimalLength num : Int) - decimalLength den) ≤ (num : ℚ) / den := by
      rw [le_div_iff₀ hden', mul_comm]
      refine not_lt.mp fun h => hgt ?_
      exact beq_iff_eq.mpr (compare_gt_iff_gt.mpr h)
    exact ⟨hle, hhigh⟩

/-! ## Trailing zeros -/

theorem stripZeros_value (d : Nat) (p : Int) :
    ((stripZeros d p).1 : ℚ) * 10 ^ (stripZeros d p).2 = d * 10 ^ p := by
  fun_induction stripZeros d p with
  | case1 d p h ih =>
    have hd : (d : ℚ) = ((d / 10 : Nat) : ℚ) * 10 := by
      exact_mod_cast (Nat.div_mul_cancel (Nat.dvd_of_mod_eq_zero h.2)).symm
    rw [ih, zpow_add_one₀ (by norm_num), hd]
    ring
  | case2 d p _ => rfl

theorem stripZeros_fst_le (d : Nat) (p : Int) : (stripZeros d p).1 ≤ d := by
  fun_induction stripZeros d p with
  | case1 d p _ ih => omega
  | case2 d p _ => exact Nat.le_refl d

end RoundRobin
