import RoundRobin.Number.Text
import RoundRobin.Proofs.Number.Digits
import Mathlib.Data.List.TakeWhile

/-!
# Reading back a written decimal

Every layout that `Notation.digitsText` writes is read by
`Binary64.decimalForm?` as a decimal of the same value: digits followed by a
point and more digits, optionally followed by an exponent mark and a signed
exponent (`decimalForm?_point`, `decimalForm?_point_exponent`). The three
positional layouts (zeros added after the digits, a point inside them, or
`0.` and zeros before them) and the scientific one each take that form
(`decimalForm?_digitsText`).

`Binary64.readText` trims blanks and then tries the spellings of NaN, of the
infinities and of an unknown value before the general grammar. A signed text
whose body starts with a digit and holds no blank is none of those
spellings, so it reads as the decimal that `decimalForm?` finds in its body
(`readText_signed`).
-/

namespace RoundRobin

namespace Binary64

-- ---------------------------------------------------------------------------
-- Characters
-- ---------------------------------------------------------------------------

theorem toNat_of_isDigit {c : Char} (h : c.isDigit = true) : 48 ≤ c.toNat ∧ c.toNat ≤ 57 := by
  simp only [Char.isDigit, Bool.and_eq_true, decide_eq_true_eq, UInt32.le_iff_toNat_le] at h
  exact h

theorem isBlank_of_isDigit {c : Char} (h : c.isDigit = true) : isBlank c = false := by
  have := toNat_of_isDigit h
  simp only [isBlank, blankCodePoints, List.contains_cons, List.contains_nil, Bool.or_false,
    Bool.or_eq_false_iff, beq_eq_false_iff_ne]
  omega

theorem toLower_of_isDigit {c : Char} (h : c.isDigit = true) : c.toLower = c := by
  have := toNat_of_isDigit h
  unfold Char.toLower
  rw [dif_neg]
  rintro ⟨hA, _⟩
  have hA' : 65 ≤ c.toNat := UInt32.le_iff_toNat_le.mp hA
  omega

theorem splitSign_of_isDigit {c : Char} (h : c.isDigit = true) (rest : List Char) :
    splitSign (c :: rest) = (false, c :: rest) := by
  unfold splitSign
  split
  · rename_i heq
    cases heq
    exact absurd h (by decide)
  · rename_i heq
    cases heq
    exact absurd h (by decide)
  · rfl

-- ---------------------------------------------------------------------------
-- The grammar of a decimal
-- ---------------------------------------------------------------------------

section Grammar

variable {ws fs : List Char}

theorem decimalForm?_point (hws : ∀ c ∈ ws, c.isDigit = true) (hfs : ∀ c ∈ fs, c.isDigit = true)
    (hne : ws ≠ []) :
    decimalForm? (ws ++ '.' :: fs) = some ⟨digitsValue (ws ++ fs), -(fs.length : Int)⟩ := by
  have hwe : ws.isEmpty = false := List.isEmpty_eq_false_iff.mpr hne
  unfold decimalForm?
  rw [List.takeWhile_append_of_pos hws, List.dropWhile_append_of_pos hws,
    List.takeWhile_cons_of_neg (by decide), List.dropWhile_cons_of_neg (by decide), List.append_nil]
  simp only [List.takeWhile_eq_self_iff.mpr hfs, List.dropWhile_eq_nil_iff.mpr hfs, hwe,
    Bool.false_and, Bool.false_eq_true, if_false, Option.map_some, Int.zero_sub]

theorem decimalForm?_point_exponent (hws : ∀ c ∈ ws, c.isDigit = true)
    (hfs : ∀ c ∈ fs, c.isDigit = true) (hne : ws ≠ []) {c : Char} {more : List Char} {x : Int}
    (hc : c = 'e' ∨ c = 'E') (hx : exponentValue? more = some x) :
    decimalForm? (ws ++ '.' :: (fs ++ c :: more)) =
      some ⟨digitsValue (ws ++ fs), x - fs.length⟩ := by
  have hcd : c.isDigit = false := by rcases hc with rfl | rfl <;> decide
  have hmark : (c == 'e' || c == 'E') = true := by rcases hc with rfl | rfl <;> decide
  have htake : (c :: more).takeWhile Char.isDigit = [] := List.takeWhile_cons_of_neg (by simp [hcd])
  have hdrop : (c :: more).dropWhile Char.isDigit = c :: more :=
    List.dropWhile_cons_of_neg (by simp [hcd])
  have hwe : ws.isEmpty = false := List.isEmpty_eq_false_iff.mpr hne
  unfold decimalForm?
  rw [List.takeWhile_append_of_pos hws, List.dropWhile_append_of_pos hws,
    List.takeWhile_cons_of_neg (by decide), List.dropWhile_cons_of_neg (by decide), List.append_nil]
  simp only [List.takeWhile_append_of_pos hfs, List.dropWhile_append_of_pos hfs, htake, hdrop,
    List.append_nil, hwe, Bool.false_and, Bool.false_eq_true, if_false, hmark, if_true, hx,
    Option.map_some]

theorem exponentValue?_signed (e : Int) (plus : Bool) (w : Nat) :
    exponentValue? ((if e < 0 then ['-'] else if plus then ['+'] else []) ++
      decimalDigits e.natAbs w) = some e := by
  have hdig : ∀ c ∈ decimalDigits e.natAbs w, c.isDigit = true :=
    fun _ h => isDigit_of_mem_decimalDigits h
  have hne : decimalDigits e.natAbs w ≠ [] := by
    intro h
    have := length_decimalDigits e.natAbs w
    have := decimalLength_pos e.natAbs
    rw [h, List.length_nil] at *
    omega
  obtain ⟨c, rest, hcr⟩ := List.exists_cons_of_ne_nil hne
  have hall : (decimalDigits e.natAbs w).all Char.isDigit = true := List.all_eq_true.mpr hdig
  have hempty : (decimalDigits e.natAbs w).isEmpty = false := List.isEmpty_eq_false_iff.mpr hne
  unfold exponentValue?
  split_ifs with hneg hplus
  · simp only [List.cons_append, List.nil_append, splitSign, hempty, hall, Bool.not_true,
      Bool.or_false, Bool.false_eq_true, if_false, if_true, digitsValue_decimalDigits,
      Option.some.injEq]
    omega
  · simp only [List.cons_append, List.nil_append, splitSign, hempty, hall, Bool.not_true,
      Bool.or_false, Bool.false_eq_true, if_false, digitsValue_decimalDigits, Option.some.injEq]
    omega
  · have hc : c.isDigit = true := hdig c (by rw [hcr]; exact List.mem_cons_self)
    simp only [List.nil_append]
    rw [hcr, splitSign_of_isDigit hc, ← hcr]
    simp only [hempty, hall, Bool.not_true, Bool.or_false, Bool.false_eq_true, if_false,
      digitsValue_decimalDigits, Option.some.injEq]
    omega

end Grammar

-- ---------------------------------------------------------------------------
-- The layouts of `Notation`
-- ---------------------------------------------------------------------------

section Layouts

variable {ds : List Char}

def decimalValue (d : Decimal) : ℚ := d.digits * 10 ^ d.exponent

/-- What reading a layout back must give: a decimal of the value of the
digits with the point at `point`. -/
def ReadsAs (text ds : List Char) (point : Int) : Prop :=
  ∃ d, decimalForm? text = some d ∧ decimalValue d = digitsValue ds * 10 ^ (point - ds.length)

theorem readsAs_positionalText (hds : ds ≠ []) (hdig : ∀ c ∈ ds, c.isDigit = true) (point : Int) :
    ReadsAs (Notation.positionalText true ds point) ds point := by
  unfold Notation.positionalText ReadsAs decimalValue
  simp only [↓reduceIte]
  split_ifs with hlong hinside
  · have hws : ∀ c ∈ ds ++ List.replicate (point - ds.length).toNat '0', c.isDigit = true := by
      intro c hc
      rcases List.mem_append.mp hc with h | h
      · exact hdig c h
      · rw [List.eq_of_mem_replicate h]; rfl
    refine ⟨_, decimalForm?_point hws (by simp) (by simp [hds]), ?_⟩
    rw [digitsValue_append, digitsValue_append, digitsValue_replicate_zero]
    simp only [List.length_replicate, List.length_singleton, Nat.add_zero, Nat.pow_one]
    push_cast
    rw [show (digitsValue [('0' : Char)] : ℚ) = 0 by rfl, add_zero, mul_assoc,
      ← zpow_natCast (10 : ℚ) (point - ds.length).toNat, Int.toNat_of_nonneg (by omega)]
    rw [zpow_neg_one, mul_assoc, mul_inv_cancel₀ (by norm_num), mul_one]
  · have hws : ∀ c ∈ ds.take point.toNat, c.isDigit = true := fun c h => hdig c (List.mem_of_mem_take h)
    have hfs : ∀ c ∈ ds.drop point.toNat, c.isDigit = true := fun c h => hdig c (List.mem_of_mem_drop h)
    have hne : ds.take point.toNat ≠ [] := by
      simp only [ne_eq, List.take_eq_nil_iff, not_or]
      exact ⟨by omega, hds⟩
    refine ⟨_, decimalForm?_point hws hfs hne, ?_⟩
    dsimp only
    rw [List.take_append_drop, List.length_drop]
    congr 2
    omega
  · have hfs : ∀ c ∈ List.replicate (-point).toNat '0' ++ ds, c.isDigit = true := by
      intro c hc
      rcases List.mem_append.mp hc with h | h
      · rw [List.eq_of_mem_replicate h]; rfl
      · exact hdig c h
    have heq : ('0' :: '.' :: List.replicate (-point).toNat '0') ++ ds =
        ['0'] ++ '.' :: (List.replicate (-point).toNat '0' ++ ds) := by simp
    refine ⟨_, by rw [heq]; exact decimalForm?_point (by simp) hfs (by simp), ?_⟩
    dsimp only
    rw [show ['0'] ++ (List.replicate (-point).toNat '0' ++ ds) =
      List.replicate ((-point).toNat + 1) '0' ++ ds by
        rw [← List.append_assoc, List.singleton_append, ← List.replicate_succ]]
    rw [digitsValue_append, digitsValue_replicate_zero, Nat.zero_mul, Nat.zero_add,
      List.length_append, List.length_replicate]
    congr 2
    omega

theorem readsAs_scientificText (f : Notation) (hmark : f.exponentMark = "E" ∨ f.exponentMark = "e")
    (hman : f.mantissaPoint = true ∨ 2 ≤ ds.length) (hds : ds ≠ [])
    (hdig : ∀ c ∈ ds, c.isDigit = true) (point : Int) :
    ReadsAs (f.scientificText ds point) ds point := by
  obtain ⟨c, hc⟩ : ∃ c, f.exponentMark.toList = [c] ∧ (c = 'e' ∨ c = 'E') := by
    rcases hmark with h | h
    · exact ⟨'E', by rw [h]; rfl, .inr rfl⟩
    · exact ⟨'e', by rw [h]; rfl, .inl rfl⟩
  have hx := exponentValue?_signed (point - 1) f.exponentPlus f.exponentWidth
  obtain ⟨d0, rest, rfl⟩ := List.exists_cons_of_ne_nil hds
  have hd0 : d0.isDigit = true := hdig d0 List.mem_cons_self
  unfold Notation.scientificText ReadsAs decimalValue
  dsimp only
  rw [hc.1]
  cases rest with
  | nil =>
    have hp : f.mantissaPoint = true := by
      rcases hman with h | h
      · exact h
      · simp at h
    simp only [hp, if_true]
    have h := @decimalForm?_point_exponent [d0] ['0'] (by simpa using hd0) (by simp)
      (by simp) _ _ _ hc.2 hx
    refine ⟨_, by simpa only [List.cons_append, List.singleton_append, List.nil_append,
      List.append_assoc] using h, ?_⟩
    dsimp only
    rw [show [d0, '0'] = [d0] ++ ['0'] from rfl, digitsValue_append]
    simp only [List.length_singleton, Nat.pow_one, Nat.cast_add, Nat.cast_mul, Nat.cast_ofNat]
    rw [show (digitsValue ['0'] : ℚ) = 0 by rfl, add_zero, mul_assoc, ← zpow_one_add₀ (by norm_num)]
    congr 2
    push_cast
    ring
  | cons d1 more =>
    have h := @decimalForm?_point_exponent [d0] (d1 :: more) (by simpa using hd0)
      (fun c h => hdig c (List.mem_cons_of_mem _ h)) (by simp) _ _ _ hc.2 hx
    refine ⟨_, by simpa only [List.cons_append, List.singleton_append, List.nil_append,
      List.append_assoc] using h, ?_⟩
    dsimp only
    congr 2
    simp only [List.length_cons]
    push_cast
    ring

theorem digitsText_cases (f : Notation) (ds : List Char) (point : Int) :
    f.digitsText ds point = Notation.positionalText f.integerPoint ds point ∨
      f.digitsText ds point = f.scientificText ds point := by
  unfold Notation.digitsText
  split
  · exact .inl rfl
  · exact .inr rfl
  · split_ifs
    · exact .inl rfl
    · exact .inr rfl

/-- Every layout of a notation with a point after positional integers, an
exponent mark `e` or `E`, and a point after a lone mantissa digit or at least
two digits, reads back as the value of its digits. -/
theorem readsAs_digitsText (f : Notation) (hint : f.integerPoint = true)
    (hmark : f.exponentMark = "E" ∨ f.exponentMark = "e")
    (hman : f.mantissaPoint = true ∨ 2 ≤ ds.length) (hds : ds ≠ [])
    (hdig : ∀ c ∈ ds, c.isDigit = true) (point : Int) :
    ReadsAs (f.digitsText ds point) ds point := by
  rcases digitsText_cases f ds point with h | h <;> rw [h]
  · rw [hint]; exact readsAs_positionalText hds hdig point
  · exact readsAs_scientificText f hmark hman hds hdig point

def LayoutChar (ch : Char) : Prop :=
  ch.isDigit = true ∨ ch = '.' ∨ ch = '-' ∨ ch = '+' ∨ ch = 'e' ∨ ch = 'E'

theorem isBlank_of_layoutChar {ch : Char} (h : LayoutChar ch) : isBlank ch = false := by
  rcases h with h | rfl | rfl | rfl | rfl | rfl
  · exact isBlank_of_isDigit h
  all_goals decide

theorem layoutChar_of_mem_replicate {k : Nat} {ch : Char} (h : ch ∈ List.replicate k '0') :
    LayoutChar ch := by
  rw [List.eq_of_mem_replicate h]
  exact .inl rfl

theorem layoutChars_positionalText (hdig : ∀ c ∈ ds, c.isDigit = true) (ip : Bool) (point : Int) :
    ∀ ch ∈ Notation.positionalText ip ds point, LayoutChar ch := by
  have hds : ∀ ch ∈ ds, LayoutChar ch := fun ch h => .inl (hdig ch h)
  intro ch h
  unfold Notation.positionalText at h
  dsimp only at h
  by_cases h1 : (ds.length : Int) ≤ point
  · rw [if_pos h1] at h
    simp only [List.mem_append] at h
    rcases h with (h | h) | h
    · exact hds ch h
    · exact layoutChar_of_mem_replicate h
    · cases ip
      · simp at h
      · simp only [if_true, List.mem_cons, List.not_mem_nil, or_false] at h
        rcases h with rfl | rfl
        · exact .inr (.inl rfl)
        · exact .inl rfl
  · rw [if_neg h1] at h
    by_cases h2 : 0 < point
    · rw [if_pos h2] at h
      simp only [List.mem_append, List.mem_cons] at h
      rcases h with h | rfl | h
      · exact hds ch (List.mem_of_mem_take h)
      · exact .inr (.inl rfl)
      · exact hds ch (List.mem_of_mem_drop h)
    · rw [if_neg h2] at h
      simp only [List.mem_append, List.mem_cons] at h
      rcases h with (rfl | rfl | h) | h
      · exact .inl rfl
      · exact .inr (.inl rfl)
      · exact layoutChar_of_mem_replicate h
      · exact hds ch h

theorem layoutChars_scientificText (f : Notation) (hmark : f.exponentMark = "E" ∨ f.exponentMark = "e")
    (hdig : ∀ c ∈ ds, c.isDigit = true) (point : Int) :
    ∀ ch ∈ f.scientificText ds point, LayoutChar ch := by
  have hds : ∀ ch ∈ ds, LayoutChar ch := fun ch h => .inl (hdig ch h)
  intro ch h
  unfold Notation.scientificText at h
  simp only [List.mem_append] at h
  rcases h with ((h | h) | h) | h
  · split at h
    · simp only [List.mem_cons, List.not_mem_nil, or_false] at h
      rw [h]; exact .inl rfl
    · split_ifs at h
      · simp only [List.mem_cons, List.not_mem_nil, or_false] at h
        rcases h with rfl | rfl | rfl
        · exact hds ch List.mem_cons_self
        · exact .inr (.inl rfl)
        · exact .inl rfl
      · simp only [List.mem_cons, List.not_mem_nil, or_false] at h
        rw [h]; exact hds _ List.mem_cons_self
    · simp only [List.mem_cons] at h
      rcases h with rfl | rfl | h
      · exact hds ch List.mem_cons_self
      · exact .inr (.inl rfl)
      · exact hds ch (List.mem_cons_of_mem _ h)
  · rcases hmark with hm | hm <;> rw [hm] at h <;> simp at h <;> subst h <;> simp [LayoutChar]
  · split_ifs at h <;> simp at h <;> subst h <;> simp [LayoutChar]
  · exact .inl (isDigit_of_mem_decimalDigits h)

theorem layoutChars_digitsText (f : Notation) (hmark : f.exponentMark = "E" ∨ f.exponentMark = "e")
    (hdig : ∀ c ∈ ds, c.isDigit = true) (point : Int) :
    ∀ ch ∈ f.digitsText ds point, LayoutChar ch := by
  rcases digitsText_cases f ds point with h | h <;> rw [h]
  · exact layoutChars_positionalText hdig _ point
  · exact layoutChars_scientificText f hmark hdig point

theorem positionalText_head (ip : Bool) (d0 : Char) (rest : List Char) (point : Int) :
    ∃ c cs, Notation.positionalText ip (d0 :: rest) point = c :: cs ∧ (c = d0 ∨ c = '0') := by
  unfold Notation.positionalText
  dsimp only
  by_cases h1 : ((d0 :: rest).length : Int) ≤ point
  · rw [if_pos h1, List.cons_append, List.cons_append]
    exact ⟨d0, _, rfl, .inl rfl⟩
  · rw [if_neg h1]
    by_cases h2 : 0 < point
    · rw [if_pos h2, show point.toNat = (point.toNat - 1) + 1 by omega, List.take_succ_cons,
        List.cons_append]
      exact ⟨d0, _, rfl, .inl rfl⟩
    · rw [if_neg h2, List.cons_append]
      exact ⟨'0', _, rfl, .inr rfl⟩

theorem scientificText_head (f : Notation) (d0 : Char) (rest : List Char) (point : Int) :
    ∃ c cs, f.scientificText (d0 :: rest) point = c :: cs ∧ c = d0 := by
  unfold Notation.scientificText
  cases rest with
  | nil =>
    by_cases hp : f.mantissaPoint = true
    · simp only [hp, if_true, List.cons_append]
      exact ⟨d0, _, rfl, rfl⟩
    · simp only [hp, Bool.false_eq_true, if_false, List.cons_append]
      exact ⟨d0, _, rfl, rfl⟩
  | cons d1 more =>
    simp only [List.cons_append]
    exact ⟨d0, _, rfl, rfl⟩

theorem digitsText_head (f : Notation) (d0 : Char) (rest : List Char) (point : Int) :
    ∃ c cs, f.digitsText (d0 :: rest) point = c :: cs ∧ (c = d0 ∨ c = '0') := by
  rcases digitsText_cases f (d0 :: rest) point with h | h <;> rw [h]
  · exact positionalText_head _ d0 rest point
  · obtain ⟨c, cs, hcs, hc⟩ := scientificText_head f d0 rest point
    exact ⟨c, cs, hcs, .inl hc⟩

end Layouts

-- ---------------------------------------------------------------------------
-- Reading a stored value's text
-- ---------------------------------------------------------------------------

theorem ofList_ne_of_isDigit {cs : List Char} {c : Char} (hc : c ∈ cs) (hd : c.isDigit = true)
    {s : String} (hs : s.toList.all (fun c => !c.isDigit) = true) : String.ofList cs ≠ s := by
  rintro rfl
  rw [String.toList_ofList, List.all_eq_true] at hs
  have := hs c hc
  simp [hd] at this

theorem trimBlank_of_ends {c : Char} {cs : List Char} (hc : isBlank c = false)
    (hlast : isBlank ((c :: cs).getLast (List.cons_ne_nil c cs)) = false) :
    trimBlank (String.ofList (c :: cs)) = String.ofList (c :: cs) := by
  unfold trimBlank
  rw [String.toList_ofList, List.dropWhile_cons_of_neg (by simp [hc])]
  obtain ⟨l, init, hli⟩ : ∃ l init, (c :: cs).reverse = l :: init := by
    cases h : (c :: cs).reverse with
    | nil => simp at h
    | cons l init => exact ⟨l, init, rfl⟩
  have hl : isBlank l = false := by
    have h : (c :: cs).getLast? = some l := by
      rw [List.getLast?_eq_head?_reverse, hli]
      rfl
    rw [List.getLast?_eq_some_getLast (List.cons_ne_nil c cs), Option.some.injEq] at h
    rw [← h]
    exact hlast
  rw [hli, List.dropWhile_cons_of_neg (by simp [hl]), ← hli, List.reverse_reverse]

/-- A signed decimal text reads as the decimal in its body: trimming keeps
it, and it is none of the special spellings. -/
theorem readText_signed (negative : Bool) {c : Char} {cs : List Char} {d : Decimal}
    (hc : c.isDigit = true) (hblank : ∀ l ∈ c :: cs, isBlank l = false)
    (hd : decimalForm? (c :: cs) = some d) :
    readText (String.ofList ((if negative then ['-'] else []) ++ c :: cs)) =
      .ok (ofDecimal negative d.digits d.exponent) := by
  have hlast : isBlank ((c :: cs).getLast (List.cons_ne_nil c cs)) = false :=
    hblank _ (List.getLast_mem _)
  set text := (if negative then ['-'] else []) ++ c :: cs with htext
  have hmem : c ∈ text := by rw [htext]; simp
  -- none of the special spellings holds a digit
  have hne : ∀ s : String, s.toList.all (fun c => !c.isDigit) = true →
      (String.ofList text == s) = false := fun s hs =>
    beq_eq_false_iff_ne.mpr (ofList_ne_of_isDigit hmem hc hs)
  have htrim : trimBlank (String.ofList text) = String.ofList text := by
    cases negative with
    | false =>
      simp only [htext, Bool.false_eq_true, if_false, List.nil_append]
      exact trimBlank_of_ends (isBlank_of_isDigit hc) hlast
    | true =>
      simp only [htext, if_true, List.cons_append, List.nil_append]
      refine trimBlank_of_ends (by decide) ?_
      rwa [List.getLast_cons_cons]
  have hsplit : splitSign text = (negative, c :: cs) := by
    cases negative with
    | false => simp only [htext, Bool.false_eq_true, if_false, List.nil_append, splitSign_of_isDigit hc]
    | true => simp only [htext, if_true, List.cons_append, List.nil_append, splitSign]
  have hword : ∀ s : String, s.toList.all (fun c => !c.isDigit) = true →
      (String.ofList ((c :: cs).map Char.toLower) == s) = false := fun s hs =>
    beq_eq_false_iff_ne.mpr (ofList_ne_of_isDigit (c := c) (by simp [toLower_of_isDigit hc]) hc hs)
  unfold readText ofText? ofDecimalText?
  simp only [htrim, String.toList_ofList, hsplit,
    hne "NaN" (by decide), hne "nan" (by decide), hne "U" (by decide), hne "UNKN" (by decide),
    hne "Infinity" (by decide), hne "+Infinity" (by decide), hne "inf" (by decide),
    hne "+inf" (by decide), hne "-Infinity" (by decide), hne "-inf" (by decide),
    hword "inf" (by decide), hword "infinity" (by decide), hword "nan" (by decide),
    Bool.false_or, Bool.false_eq_true, if_false, hd, Option.map_some]

section Specials

variable (f : Notation) {x : Binary64} (body : Nat → Int → Binary64 → List Char)

theorem withSpecials_nan (h : x.shape = .nan) : f.withSpecials x body = f.nanText := by
  unfold Notation.withSpecials
  rw [h]

theorem withSpecials_infinite {negative : Bool} (h : x.shape = .infinite negative) :
    f.withSpecials x body = (if negative then "-" else "") ++ f.infinityText := by
  unfold Notation.withSpecials
  rw [h]

theorem withSpecials_finite {negative : Bool} {m : Nat} {e : Int}
    (h : x.shape = .finite negative m e) :
    f.withSpecials x body = String.ofList ((if negative then ['-'] else []) ++ body m e x) := by
  unfold Notation.withSpecials
  rw [h]

end Specials

theorem readText_nanText : readText "NaN" = .ok nan := by
  unfold readText
  rw [show trimBlank "NaN" = "NaN" by
    rw [show "NaN" = String.ofList ['N', 'a', 'N'] by simp]
    exact trimBlank_of_ends (by decide) (by decide)]
  simp

theorem readText_infinityText (negative : Bool) :
    readText ((if negative then "-" else "") ++ "Infinity") = .ok (infinity negative) := by
  unfold readText
  cases negative with
  | false =>
    rw [show trimBlank ((if false = true then "-" else "") ++ "Infinity") = "Infinity" by
      rw [show (if false = true then "-" else "") ++ "Infinity" = String.ofList "Infinity".toList by
        simp]
      exact trimBlank_of_ends (by decide) (by decide)]
    simp
  | true =>
    rw [show trimBlank ((if true = true then "-" else "") ++ "Infinity") = "-Infinity" by
      rw [show (if true = true then "-" else "") ++ "Infinity" =
        String.ofList ['-', 'I', 'n', 'f', 'i', 'n', 'i', 't', 'y'] by simp]
      exact trimBlank_of_ends (by decide) (by decide)]
    simp

theorem readText_digitsText (f : Notation) (hmark : f.exponentMark = "E" ∨ f.exponentMark = "e")
    {ds : List Char} (hds : ds ≠ []) (hdig : ∀ c ∈ ds, c.isDigit = true) {point : Int}
    (hread : ReadsAs (f.digitsText ds point) ds point) (negative : Bool) :
    ∃ d, readText (String.ofList ((if negative then ['-'] else []) ++ f.digitsText ds point)) =
        .ok (ofDecimal negative d.digits d.exponent) ∧
      decimalValue d = digitsValue ds * 10 ^ (point - ds.length) := by
  obtain ⟨d, hparse, hval⟩ := hread
  obtain ⟨d0, rest, hdr⟩ := List.exists_cons_of_ne_nil hds
  obtain ⟨c, cs, hcs, hc⟩ := digitsText_head f d0 rest point
  rw [← hdr] at hcs
  have hcdig : c.isDigit = true := by
    rcases hc with rfl | rfl
    · exact hdig _ (by rw [hdr]; exact List.mem_cons_self)
    · rfl
  have hblank : ∀ l ∈ c :: cs, isBlank l = false := by
    rw [← hcs]
    exact fun l hl => isBlank_of_layoutChar (layoutChars_digitsText f hmark hdig point l hl)
  rw [hcs] at hparse ⊢
  exact ⟨d, readText_signed negative hcdig hblank hparse, hval⟩

end Binary64

end RoundRobin
