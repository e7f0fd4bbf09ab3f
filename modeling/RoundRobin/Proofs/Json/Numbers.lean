import RoundRobin.Proofs.Json.Reading
import RoundRobin.Proofs.Number.Export
import RoundRobin.Json.Value

/-!
# Reading numbers

The number readers run through the digits of a number one branch at a time:
`parseInteger` reads the integer digits, `parseNumber` looks at what follows
them, `parseDecimal` reads a fraction and `parseExponent` an exponent. Each
step is stated as the reader it hands over to and the index where it does,
for the layouts the JSON writer produces: integers without leading zeros,
fractions after the point, and negative exponents.
-/

namespace RoundRobin

namespace Json

namespace Reader

-- ---------------------------------------------------------------------------
-- Integer digits
-- ---------------------------------------------------------------------------

section Integer

variable {bytes : ByteArray} {i : Nat} {rest : List UInt8} {positive : Bool}

theorem all_headD {p : UInt8 → Bool} (h : rest.head?.all p = true) (h0 : p 0 = true) :
    p (rest.head?.getD 0) = true := by
  cases rest with
  | nil => exact h0
  | cons c r => simpa using h

theorem isDigit_headD (h : rest.head?.all (fun c => !isDigit c) = true) :
    isDigit (rest.head?.getD 0) = false := by
  simpa using all_headD h rfl

theorem outcome_parseInteger_zero (h : bytesFrom bytes i = 48 :: rest)
    (hrest : rest.head?.all (fun c => !isDigit c) = true) :
    outcome (parseInteger positive) bytes i = outcome (parseNumber positive 0) bytes (i + 1) := by
  unfold parseInteger
  simp only [outcome_bind, outcome_next_of_cons h, outcome_peekOrNull, bytesFrom_cons h,
    isDigit_headD hrest]
  rfl

theorem outcome_parseInteger_digits {d : UInt8} {ds : List UInt8} (hd : isDigit d = true)
    (hd0 : d ≠ 48) (hds : ∀ c ∈ ds, isDigit c = true)
    (hrest : rest.head?.all (fun c => !isDigit c) = true) (h : bytesFrom bytes i = d :: ds ++ rest)
    (hfit : foldDigits 0 (d :: ds) ≤ significandMax) :
    outcome (parseInteger positive) bytes i =
      outcome (parseNumber positive (foldDigits 0 (d :: ds))) bytes (i + 1 + ds.length) := by
  rw [foldDigits_cons, Nat.zero_mul, Nat.zero_add] at hfit ⊢
  have hacc := accumulateFrom_eq hds hrest (bytesFrom_cons h) hfit
  unfold parseInteger
  simp only [outcome_bind, outcome_next_of_cons h, hd, ↓reduceIte, outcome_read, outcome_get, hacc,
    outcome_set, Bool.false_eq_true]

theorem outcome_parseNumber_point {n : Nat} (h : bytesFrom bytes i = 46 :: rest) :
    outcome (parseNumber positive n) bytes i =
      outcome (Number.double <$> parseDecimal positive n 0) bytes i := by
  unfold parseNumber
  simp only [outcome_bind, outcome_peekOrNull, h, List.head?_cons, Option.getD_some]

theorem outcome_parseNumber_exponent {n : Nat} (h : bytesFrom bytes i = 101 :: rest) :
    outcome (parseNumber positive n) bytes i =
      outcome (Number.double <$> parseExponent positive n 0) bytes i := by
  unfold parseNumber
  simp only [outcome_bind, outcome_peekOrNull, h, List.head?_cons, Option.getD_some]

theorem outcome_parseNumber_end {n : Nat}
    (h : (bytesFrom bytes i).head?.all (fun c => c != 46 && c != 101 && c != 69) = true) :
    outcome (parseNumber positive n) bytes i =
      (.ok (if positive then .unsigned n
        else if 1 ≤ n ∧ n ≤ Nat.pow 2 63 then .negative (-(n : Int))
        else .double (Binary64.ofInt n).neg), i) := by
  unfold parseNumber
  simp only [outcome_bind, outcome_peekOrNull]
  have hnext := all_headD h rfl
  split
  · rename_i h46
    rw [h46] at hnext
    exact absurd hnext (by decide)
  · rename_i h101
    rw [h101] at hnext
    exact absurd hnext (by decide)
  · rename_i h69
    rw [h69] at hnext
    exact absurd hnext (by decide)
  · cases positive
    · simp only [Bool.false_eq_true, ↓reduceIte]
      split <;> rfl
    · rfl

end Integer

-- ---------------------------------------------------------------------------
-- Fractions and exponents
-- ---------------------------------------------------------------------------

section Fraction

variable {bytes : ByteArray} {i : Nat} {rest : List UInt8} {positive : Bool}

theorem outcome_parseDecimal {n : Nat} {start : Int} {f : UInt8} {fs : List UInt8}
    (hf : isDigit f = true) (hfs : ∀ c ∈ fs, isDigit c = true)
    (hrest : rest.head?.all (fun c => !isDigit c && c != 69) = true)
    (h : bytesFrom bytes i = 46 :: f :: fs ++ rest) (hfit : foldDigits n (f :: fs) ≤ significandMax) :
    outcome (parseDecimal positive n start) bytes i =
      outcome (if rest.head? = some 101 then
          parseExponent positive (foldDigits n (f :: fs)) (start - (fs.length + 1 : Nat))
        else fromParts positive (foldDigits n (f :: fs)) (start - (fs.length + 1 : Nat)))
        bytes (i + 1 + (fs.length + 1)) := by
  have hds : ∀ c ∈ f :: fs, isDigit c = true := by
    intro c hc
    rcases List.mem_cons.mp hc with rfl | hc
    · exact hf
    · exact hfs c hc
  have hnodigit : rest.head?.all (fun c => !isDigit c) = true := by
    cases rest with
    | nil => rfl
    | cons c r =>
      simp only [List.head?_cons, Option.all_some, Bool.and_eq_true] at hrest ⊢
      exact hrest.1
  have hacc := accumulateFrom_eq hds hnodigit (bytesFrom_cons h) hfit
  have hr : bytesFrom bytes (i + 1 + (fs.length + 1)) = rest := by
    have := bytesFrom_append (bytesFrom_cons h)
    rwa [List.length_cons, ← Nat.add_assoc] at this
  have hmoved : (i + 1 + (fs.length + 1) == i + 1) = false := by simp
  have hcount : i + 1 + (fs.length + 1) - (i + 1) = fs.length + 1 := by omega
  rw [List.length_cons] at hacc
  unfold parseDecimal
  simp only [outcome_bind, outcome_eat, outcome_read, outcome_get, hacc, outcome_set,
    Bool.false_eq_true, ↓reduceIte, hmoved, hcount, outcome_peekOrNull, hr]
  -- the exponent mark decides; an upper-case one never follows
  cases rest with
  | nil => rfl
  | cons c r =>
    simp only [List.head?_cons, Option.all_some, Bool.and_eq_true, bne_iff_ne, ne_eq] at hrest
    simp only [List.head?_cons, Option.getD_some, Option.some.injEq, Bool.or_eq_true, beq_iff_eq,
      hrest.2, or_false]

theorem outcome_parseExponent_minus {s : Nat} {start : Int} {d : UInt8} {ds : List UInt8}
    (hd : isDigit d = true) (hds : ∀ c ∈ ds, isDigit c = true)
    (hrest : rest.head?.all (fun c => !isDigit c) = true)
    (h : bytesFrom bytes i = 101 :: 45 :: d :: ds ++ rest)
    (hfit : foldDigits 0 (d :: ds) ≤ exponentMax) :
    outcome (parseExponent positive s start) bytes i =
      outcome (fromParts positive s (clampI32 (start - foldDigits 0 (d :: ds))))
        bytes (i + 3 + ds.length) := by
  simp only [List.cons_append] at h
  have h1 := bytesFrom_cons h
  have h2 := bytesFrom_cons h1
  rw [foldDigits_cons, Nat.zero_mul, Nat.zero_add] at hfit ⊢
  have hacc := accumulateFrom_eq hds hrest (bytesFrom_cons h2) hfit
  have hj : i + 1 + 1 + 1 + ds.length = i + 3 + ds.length := by omega
  unfold parseExponent
  simp only [outcome_bind, outcome_eat, outcome_peekOrNull, h1, List.head?_cons, Option.getD_some,
    outcome_next_of_cons h2, hd, ↓reduceIte, outcome_pure, outcome_read, outcome_get, hacc,
    outcome_set, Bool.false_eq_true, hj]

end Fraction

-- ---------------------------------------------------------------------------
-- Typed numbers
-- ---------------------------------------------------------------------------

section Typed

variable {α : Type} {bytes : ByteArray} {i j : Nat} {ws more : List UInt8}

theorem ofResult_ok (a : α) : ofResult (.ok a) = (pure a : Reader α) := rfl

theorem reads_numberWith_digit {expected : String} {visit : Number → Except ReadFault α}
    {b : UInt8} {num : Number} {a : α} (hws : ∀ c ∈ ws, isSpace c = true) (hb : isDigit b = true)
    (h : bytesFrom bytes i = ws ++ b :: more)
    (hp : outcome (parseInteger true) bytes (i + ws.length) = (.ok num, j))
    (hv : visit num = .ok a) : Reads (numberWith expected visit) bytes i a j := by
  have hminus : (b == 45) = false := beq_eq_false_iff_ne.mpr (ne_of_isDigit hb rfl)
  unfold Reads numberWith settling
  simp only [outcome_tryCatch, outcome_bind,
    outcome_skipSpace hws (by simpa using isSpace_of_isDigit hb) h,
    List.head?_cons, hminus, hb, Bool.false_eq_true, ↓reduceIte, hp, hv, ofResult_ok, outcome_pure]

theorem reads_numberWith_minus {expected : String} {visit : Number → Except ReadFault α}
    {num : Number} {a : α} (hws : ∀ c ∈ ws, isSpace c = true)
    (h : bytesFrom bytes i = ws ++ 45 :: more)
    (hp : outcome (parseInteger false) bytes (i + ws.length + 1) = (.ok num, j))
    (hv : visit num = .ok a) : Reads (numberWith expected visit) bytes i a j := by
  unfold Reads numberWith settling
  simp only [outcome_tryCatch, outcome_bind, outcome_skipSpace hws rfl h, List.head?_cons,
    beq_self_eq_true, ↓reduceIte, outcome_eat, hp, hv, ofResult_ok, outcome_pure]

def signBytes (negative : Bool) : List UInt8 := if negative then [45] else []

theorem reads_numberWith {expected : String} {visit : Number → Except ReadFault α} {negative : Bool}
    {b : UInt8} {num : Number} {a : α} (hws : ∀ c ∈ ws, isSpace c = true) (hb : isDigit b = true)
    (h : bytesFrom bytes i = ws ++ signBytes negative ++ b :: more)
    (hp : outcome (parseInteger !negative) bytes (i + ws.length + (signBytes negative).length) =
      (.ok num, j))
    (hv : visit num = .ok a) : Reads (numberWith expected visit) bytes i a j := by
  cases negative with
  | false =>
    rw [signBytes, if_neg Bool.false_ne_true, List.append_nil] at h
    exact reads_numberWith_digit hws hb h hp hv
  | true =>
    rw [signBytes, if_pos rfl, List.append_assoc, List.singleton_append] at h
    exact reads_numberWith_minus hws h hp hv

theorem all_mono {rest : List UInt8} {p q : UInt8 → Bool} (h : rest.head?.all p = true)
    (hpq : ∀ c, p c = true → q c = true) : rest.head?.all q = true := by
  cases rest with
  | nil => rfl
  | cons c r => exact hpq c h

theorem readsValue_numberWith {expected : String} {visit : Number → Except ReadFault α}
    {negative : Bool} {b : UInt8} {body : List UInt8} {num : Number} {a : α} (hb : isDigit b = true)
    (hp : ∀ bytes k rest, Delimited rest → bytesFrom bytes k = b :: body ++ rest →
      outcome (parseInteger !negative) bytes k = (.ok num, k + (body.length + 1)))
    (hv : visit num = .ok a) :
    ReadsValue (numberWith expected visit) (signBytes negative ++ b :: body) a := by
  intro bytes i ws rest hws hrest h
  have hsplit : bytesFrom bytes i = ws ++ signBytes negative ++ b :: (body ++ rest) := by
    rw [h]
    simp only [List.append_assoc, List.cons_append]
  have hk : bytesFrom bytes (i + ws.length + (signBytes negative).length) = b :: body ++ rest := by
    have := bytesFrom_append hsplit
    rwa [List.length_append, ← Nat.add_assoc] at this
  have hp' : outcome (parseInteger !negative) bytes (i + ws.length + (signBytes negative).length) =
      (.ok num, i + ws.length + (signBytes negative ++ b :: body).length) := by
    rw [hp bytes _ rest hrest hk, List.length_append, List.length_cons, Nat.add_assoc (i + _)]
  exact reads_numberWith hws hb hsplit hp' hv

end Typed

-- ---------------------------------------------------------------------------
-- The layouts of a double
-- ---------------------------------------------------------------------------

section Layouts

variable {bytes : ByteArray} {k : Nat} {rest : List UInt8} {positive : Bool} {y : Binary64}

theorem outcome_parseInteger_fraction {f : UInt8} {fs : List UInt8}
    (hf : isDigit f = true) (hfs : ∀ c ∈ fs, isDigit c = true) (hrest : Delimited rest)
    (h : bytesFrom bytes k = 48 :: 46 :: f :: fs ++ rest)
    (hfit : foldDigits 0 (f :: fs) ≤ significandMax)
    (hy : assembled positive (foldDigits 0 (f :: fs)) (0 - (fs.length + 1 : Nat)) = some y) :
    outcome (parseInteger positive) bytes k = (.ok (.double y), k + ((46 :: f :: fs).length + 1)) := by
  have hend := hrest.head_all
  simp only [List.cons_append] at h
  have hpoint : bytesFrom bytes (k + 1) = 46 :: f :: fs ++ rest := bytesFrom_cons h
  have hdec : outcome (parseDecimal positive 0 0) bytes (k + 1) = _ :=
    outcome_parseDecimal hf hfs (all_mono hend fun c hc => by simp_all) hpoint
      (by rwa [foldDigits_cons, Nat.zero_mul, Nat.zero_add] at hfit ⊢)
  have hnoexp : rest.head? ≠ some 101 := by
    cases rest with
    | nil => simp
    | cons c r => simp_all
  have hpos : k + 1 + 1 + (fs.length + 1) = k + ((46 :: f :: fs).length + 1) := by
    simp only [List.length_cons]
    omega
  rw [outcome_parseInteger_zero h rfl, outcome_parseNumber_point hpoint, outcome_map, hdec,
    if_neg hnoexp, reads_fromParts hy, hpos]

theorem outcome_parseInteger_scientific {d f e : UInt8} {fs es : List UInt8}
    (hd : isDigit d = true) (hd0 : d ≠ 48) (hf : isDigit f = true)
    (hfs : ∀ c ∈ fs, isDigit c = true) (he : isDigit e = true) (hes : ∀ c ∈ es, isDigit c = true)
    (hrest : Delimited rest) (h : bytesFrom bytes k = d :: 46 :: f :: fs ++ 101 :: 45 :: e :: es ++ rest)
    (hfit : foldDigits 0 (d :: f :: fs) ≤ significandMax) (hefit : foldDigits 0 (e :: es) ≤ exponentMax)
    (hy : assembled positive (foldDigits 0 (d :: f :: fs))
      (clampI32 (0 - (fs.length + 1 : Nat) - foldDigits 0 (e :: es))) = some y) :
    outcome (parseInteger positive) bytes k =
      (.ok (.double y), k + ((46 :: f :: fs ++ 101 :: 45 :: e :: es).length + 1)) := by
  have hend := hrest.head_all
  simp only [List.cons_append, List.append_assoc] at h
  have hint : bytesFrom bytes k = d :: [] ++ 46 :: (f :: fs ++ 101 :: 45 :: e :: es ++ rest) := by
    simpa using h
  have hpoint : bytesFrom bytes (k + 1) = 46 :: f :: fs ++ (101 :: 45 :: e :: es ++ rest) := by
    simpa using bytesFrom_cons h
  have hexp : bytesFrom bytes (k + 1 + 1 + (fs.length + 1)) = 101 :: 45 :: e :: es ++ rest := by
    have := bytesFrom_append hpoint
    rwa [List.length_cons, List.length_cons, show k + 1 + (fs.length + 1 + 1) =
      k + 1 + 1 + (fs.length + 1) by omega] at this
  have hdigit : foldDigits 0 [d] ≤ significandMax :=
    Nat.le_trans (le_foldDigits _ (f :: fs)) (by rwa [foldDigits_cons] at hfit ⊢)
  have hdec : outcome (parseDecimal positive (foldDigits 0 [d]) 0) bytes (k + 1) = _ :=
    outcome_parseDecimal hf hfs rfl hpoint (by simpa using hfit)
  have hsci : outcome (parseExponent positive (foldDigits (foldDigits 0 [d]) (f :: fs))
      (0 - (fs.length + 1 : Nat))) bytes (k + 1 + 1 + (fs.length + 1)) = _ :=
    outcome_parseExponent_minus he hes (all_mono hend fun c hc => by simp_all) hexp hefit
  have hpos : k + 1 + 1 + (fs.length + 1) + 3 + es.length =
      k + ((46 :: f :: fs ++ 101 :: 45 :: e :: es).length + 1) := by
    simp only [List.length_cons, List.length_append]
    omega
  have hvalue : foldDigits (foldDigits 0 [d]) (f :: fs) = foldDigits 0 (d :: f :: fs) := by
    simp only [foldDigits_cons, foldDigits_nil]
  rw [outcome_parseInteger_digits hd hd0 (by simp) rfl hint hdigit, List.length_nil, Nat.add_zero,
    outcome_parseNumber_point hpoint, outcome_map, hdec, List.cons_append, List.head?_cons, if_pos rfl,
    hsci, hvalue, reads_fromParts hy, hpos]

theorem outcome_parseInteger_scientific_digit {d e : UInt8} {es : List UInt8}
    (hd : isDigit d = true) (hd0 : d ≠ 48) (he : isDigit e = true)
    (hes : ∀ c ∈ es, isDigit c = true) (hrest : Delimited rest)
    (h : bytesFrom bytes k = d :: 101 :: 45 :: e :: es ++ rest) (hefit : foldDigits 0 (e :: es) ≤ exponentMax)
    (hy : assembled positive (foldDigits 0 [d]) (clampI32 (0 - foldDigits 0 (e :: es))) = some y) :
    outcome (parseInteger positive) bytes k =
      (.ok (.double y), k + ((101 :: 45 :: e :: es).length + 1)) := by
  have hend := hrest.head_all
  simp only [List.cons_append] at h
  have hint : bytesFrom bytes k = d :: [] ++ 101 :: 45 :: e :: (es ++ rest) := by
    simpa using h
  have hexp : bytesFrom bytes (k + 1) = 101 :: 45 :: e :: es ++ rest := by
    simpa using bytesFrom_cons h
  have hdigit : foldDigits 0 [d] ≤ significandMax := by
    have := (isDigit_iff_toNat.mp hd).2
    have hmax : 9 ≤ significandMax := by decide
    simp only [foldDigits_cons, foldDigits_nil, digitValue]
    omega
  have hpos : k + 1 + 3 + es.length = k + ((101 :: 45 :: e :: es).length + 1) := by
    simp only [List.length_cons]
    omega
  rw [outcome_parseInteger_digits hd hd0 (by simp) rfl hint hdigit, List.length_nil, Nat.add_zero,
    outcome_parseNumber_exponent hexp, outcome_map,
    outcome_parseExponent_minus he hes (all_mono hend fun c hc => by simp_all) hexp hefit,
    reads_fromParts hy, hpos]

theorem assembled_of_neg (positive : Bool) (s : Nat) {e : Int} (he : e < 0) :
    ∃ y, assembled positive s e = some y := by
  unfold assembled
  obtain ⟨f, hf⟩ := Option.isSome_iff_exists.mp (assemble_isSome_of_neg (Binary64.ofInt s) he
    (e.natAbs / 308 + 1))
  exact ⟨_, by rw [hf, Option.map_some]⟩

theorem clampI32_neg {e : Int} (he : e < 0) : clampI32 e < 0 := by
  unfold clampI32
  have hpow : Int.pow 2 31 = 2147483648 := by decide
  rw [hpow]
  omega

theorem readsValue_fractionText (negative : Bool) {f : UInt8} {fs : List UInt8}
    (hf : isDigit f = true) (hfs : ∀ c ∈ fs, isDigit c = true)
    (hfit : foldDigits 0 (f :: fs) ≤ significandMax) :
    ∃ y, ReadsValue readDouble (signBytes negative ++ 48 :: 46 :: f :: fs) y := by
  obtain ⟨y, hy⟩ := assembled_of_neg (!negative) (foldDigits 0 (f :: fs))
    (show (0 : Int) - (fs.length + 1 : Nat) < 0 by omega)
  exact ⟨y, readsValue_numberWith rfl (fun bytes k rest hrest h =>
    outcome_parseInteger_fraction hf hfs hrest h hfit hy) rfl⟩

theorem readsValue_scientificText (negative : Bool) {d f e : UInt8} {fs es : List UInt8}
    (hd : isDigit d = true) (hd0 : d ≠ 48) (hf : isDigit f = true)
    (hfs : ∀ c ∈ fs, isDigit c = true) (he : isDigit e = true) (hes : ∀ c ∈ es, isDigit c = true)
    (hfit : foldDigits 0 (d :: f :: fs) ≤ significandMax) (hefit : foldDigits 0 (e :: es) ≤ exponentMax) :
    ∃ y, ReadsValue readDouble (signBytes negative ++ d :: (46 :: f :: fs ++ 101 :: 45 :: e :: es)) y := by
  obtain ⟨y, hy⟩ := assembled_of_neg (!negative) (foldDigits 0 (d :: f :: fs))
    (clampI32_neg (show (0 : Int) - (fs.length + 1 : Nat) - foldDigits 0 (e :: es) < 0 by omega))
  exact ⟨y, readsValue_numberWith hd (fun bytes k rest hrest h =>
    outcome_parseInteger_scientific hd hd0 hf hfs he hes hrest (by simpa using h) hfit hefit hy) rfl⟩

theorem readsValue_scientificDigitText (negative : Bool) {d e : UInt8} {es : List UInt8}
    (hd : isDigit d = true) (hd0 : d ≠ 48) (he : isDigit e = true) (he0 : e ≠ 48)
    (hes : ∀ c ∈ es, isDigit c = true) (hefit : foldDigits 0 (e :: es) ≤ exponentMax) :
    ∃ y, ReadsValue readDouble (signBytes negative ++ d :: 101 :: 45 :: e :: es) y := by
  have hpos : (0 : Int) < foldDigits 0 (e :: es) := by
    have hdigit := isDigit_iff_toNat.mp he
    have hne : e.toNat ≠ 48 := fun h => he0 (UInt8.toNat_inj.mp h)
    have := le_foldDigits (digitValue e) es
    rw [foldDigits_cons, Nat.zero_mul, Nat.zero_add]
    unfold digitValue at *
    omega
  obtain ⟨y, hy⟩ := assembled_of_neg (!negative) (foldDigits 0 [d])
    (clampI32_neg (show (0 : Int) - foldDigits 0 (e :: es) < 0 by omega))
  exact ⟨y, readsValue_numberWith hd (fun bytes k rest hrest h =>
    outcome_parseInteger_scientific_digit hd hd0 he hes hrest (by simpa using h) hefit hy) rfl⟩

end Layouts

-- ---------------------------------------------------------------------------
-- The text of an integer
-- ---------------------------------------------------------------------------

section Integers

variable {bytes : ByteArray} {k : Nat} {rest : List UInt8} {positive : Bool}

theorem toNat_toUInt8_of_isDigit {c : Char} (h : c.isDigit = true) : c.toUInt8.toNat = c.toNat := by
  have := Binary64.toNat_of_isDigit h
  show c.val.toUInt8.toNat = c.val.toNat
  rw [UInt32.toNat_toUInt8]
  exact Nat.mod_eq_of_lt (by simp only [Char.toNat] at this; omega)

theorem isDigit_toUInt8 {c : Char} (h : c.isDigit = true) : isDigit c.toUInt8 = true := by
  rw [isDigit_iff_toNat, toNat_toUInt8_of_isDigit h]
  exact Binary64.toNat_of_isDigit h

theorem toUInt8_ne_zero_digit {c : Char} (h : c.isDigit = true) (hc : c ≠ '0') : c.toUInt8 ≠ 48 := by
  intro h48
  have := congrArg UInt8.toNat h48
  rw [toNat_toUInt8_of_isDigit h] at this
  exact hc (Char.ext (UInt32.toNat_inj.mp (by simpa using this)))

theorem foldDigits_map_toUInt8 {cs : List Char} (h : ∀ c ∈ cs, c.isDigit = true) (acc : Nat) :
    foldDigits acc (cs.map Char.toUInt8) = cs.foldl (fun a c => a * 10 + (c.toNat - '0'.toNat)) acc := by
  induction cs generalizing acc with
  | nil => rfl
  | cons c cs ih =>
    rw [List.map_cons, foldDigits_cons, List.foldl_cons, ih (fun c hc => h c (List.mem_cons_of_mem _ hc))]
    unfold digitValue
    rw [toNat_toUInt8_of_isDigit (h c (List.mem_cons_self ..))]
    rfl

theorem digitBytes {cs : List Char} (h : ∀ c ∈ cs, c.isDigit = true) :
    (∀ b ∈ cs.map Char.toUInt8, isDigit b = true) ∧
      foldDigits 0 (cs.map Char.toUInt8) = Binary64.digitsValue cs := by
  refine ⟨fun b hb => ?_, foldDigits_map_toUInt8 h 0⟩
  obtain ⟨c, hc, rfl⟩ := List.mem_map.mp hb
  exact isDigit_toUInt8 (h c hc)

theorem foldDigits_toDigits (m : Nat) :
    foldDigits 0 ((Nat.toDigits 10 m).map Char.toUInt8) = m := by
  rw [foldDigits_map_toUInt8 (fun _ hc => Nat.isDigit_of_mem_toDigits (by decide) (by decide) hc)]
  exact digitsValue_toDigits m

theorem head_toDigits {m : Nat} (hm : 0 < m) : ∃ c cs, Nat.toDigits 10 m = c :: cs ∧ c ≠ '0' := by
  induction m using Nat.strong_induction_on with
  | _ m ih =>
    rw [Nat.toDigits_eq_if (by decide)]
    split
    · rename_i hlt
      have hdigit : ∀ k < 10, 0 < k → k.digitChar ≠ '0' := by decide
      exact ⟨_, [], rfl, hdigit m hlt hm⟩
    · obtain ⟨c, cs, h, hc⟩ := ih (m / 10) (by omega) (by omega)
      exact ⟨c, cs ++ _, by rw [h, List.cons_append], hc⟩

theorem textBytes_toString (n : Int) :
    textBytes (toString n) = signBytes (decide (n < 0)) ++ (Nat.toDigits 10 n.natAbs).map Char.toUInt8 := by
  have hascii : ∀ m, textBytes m.repr = (Nat.toDigits 10 m).map Char.toUInt8 := by
    intro m
    rw [Nat.repr_eq_ofList_toDigits, textBytes_ofList_ascii]
    intro c hc
    have := Binary64.toNat_of_isDigit (Nat.isDigit_of_mem_toDigits (by decide) (by decide) hc)
    omega
  show textBytes n.repr = _
  rw [Int.repr_eq_if]
  by_cases hn : 0 ≤ n
  · rw [if_pos hn, hascii, signBytes, if_neg (by simpa using hn), List.nil_append]
    congr 3
    omega
  · rw [if_neg hn, textBytes_append, hascii, signBytes, if_pos (by simpa using hn)]
    congr 4
    omega

theorem outcome_parseInteger_natural {m : Nat} (hm : m ≤ significandMax) (hrest : Delimited rest)
    (h : bytesFrom bytes k = (Nat.toDigits 10 m).map Char.toUInt8 ++ rest) :
    outcome (parseInteger positive) bytes k =
      (.ok (if positive then .unsigned m
        else if 1 ≤ m ∧ m ≤ Nat.pow 2 63 then .negative (-(m : Int))
        else .double (Binary64.ofInt m).neg), k + (Nat.toDigits 10 m).length) := by
  have hend := hrest.head_all
  have hnodigit : rest.head?.all (fun c => !isDigit c) = true := all_mono hend fun c hc => by simp_all
  have hnumber : rest.head?.all (fun c => c != 46 && c != 101 && c != 69) = true :=
    all_mono hend fun c hc => by simp_all
  rcases Nat.eq_zero_or_pos m with rfl | hpos
  · rw [Nat.toDigits_zero] at h ⊢
    rw [outcome_parseInteger_zero h hnodigit, outcome_parseNumber_end (by rwa [bytesFrom_cons h])]
    rfl
  · obtain ⟨c, cs, hcs, hc⟩ := head_toDigits hpos
    have hdig : ∀ x ∈ c :: cs, x.isDigit = true := fun x hx =>
      Nat.isDigit_of_mem_toDigits (by decide) (by decide) (hcs ▸ hx)
    have hc0 := toUInt8_ne_zero_digit (hdig c (List.mem_cons_self ..)) hc
    have hfold := foldDigits_toDigits m
    rw [hcs, List.map_cons] at h hfold
    rw [hcs, List.length_cons, outcome_parseInteger_digits (isDigit_toUInt8 (hdig c (List.mem_cons_self ..)))
      hc0 (by simpa using fun x hx => isDigit_toUInt8 (hdig x (List.mem_cons_of_mem _ hx))) hnodigit h
      (by rw [hfold]; exact hm), hfold]
    have hafter : bytesFrom bytes (k + 1 + (cs.map Char.toUInt8).length) = rest := by
      have := bytesFrom_append h
      rwa [List.length_cons, Nat.add_comm _ 1, ← Nat.add_assoc] at this
    rw [outcome_parseNumber_end (by rwa [hafter]), List.length_map, Nat.add_assoc, Nat.add_comm 1]

theorem readsValue_readInt64 {n : Int} (hn : Signed64.fits n = true) :
    ReadsValue readInt64 (textBytes (toString n)) n := by
  have hbounds : -9223372036854775808 ≤ n ∧ n ≤ 9223372036854775807 := by
    have hmin : Signed64.min = -9223372036854775808 := by decide
    have hmax : Signed64.max = 9223372036854775807 := by decide
    unfold Signed64.fits at hn
    simpa [hmin, hmax] using hn
  have hm : n.natAbs ≤ significandMax := by
    have : significandMax = 18446744073709551615 := by decide
    omega
  have hpow : Nat.pow 2 63 = 9223372036854775808 := by decide
  obtain ⟨b, body, hdigits⟩ : ∃ b body, (Nat.toDigits 10 n.natAbs).map Char.toUInt8 = b :: body := by
    cases h : Nat.toDigits 10 n.natAbs with
    | nil => exact absurd h Nat.toDigits_ne_nil
    | cons c cs => exact ⟨_, _, rfl⟩
  have hb : isDigit b = true := by
    have hmem : b ∈ (Nat.toDigits 10 n.natAbs).map Char.toUInt8 := by rw [hdigits]; exact List.mem_cons_self ..
    obtain ⟨c, hc, rfl⟩ := List.mem_map.mp hmem
    exact isDigit_toUInt8 (Nat.isDigit_of_mem_toDigits (by decide) (by decide) hc)
  have hlen : (Nat.toDigits 10 n.natAbs).length = body.length + 1 := by
    rw [← List.length_map Char.toUInt8, hdigits, List.length_cons]
  have hp : ∀ bytes k rest, Delimited rest → bytesFrom bytes k = b :: body ++ rest →
      outcome (parseInteger !decide (n < 0)) bytes k =
        (.ok (if (!decide (n < 0)) = true then .unsigned n.natAbs
          else if 1 ≤ n.natAbs ∧ n.natAbs ≤ Nat.pow 2 63 then .negative (-(n.natAbs : Int))
          else .double (Binary64.ofInt n.natAbs).neg), k + (body.length + 1)) := by
    intro bytes k rest hrest h
    rw [outcome_parseInteger_natural hm hrest (by rw [hdigits]; exact h), hlen]
  rw [textBytes_toString, hdigits]
  refine readsValue_numberWith hb hp ?_
  · by_cases hneg : n < 0
    · simp only [hneg, decide_true, Bool.not_true, Bool.false_eq_true, ↓reduceIte, hpow]
      rw [if_pos (by omega)]
      show Except.ok (-(n.natAbs : Int)) = Except.ok n
      congr 1
      omega
    · simp only [hneg, decide_false, Bool.not_false, ↓reduceIte, hpow]
      rw [if_pos (by omega)]
      show Except.ok (n.natAbs : Int) = Except.ok n
      congr 1
      omega

end Integers

end Reader

end Json

-- ---------------------------------------------------------------------------
-- The shortest digits of a double below one
-- ---------------------------------------------------------------------------

namespace Binary64

variable {m : Nat} {e : Int} {nb : Bool}

theorem add_half_mul_lt_one (hm : m ≠ 0) (h : (m : ℚ) * 2 ^ e < 1) : ((m : ℚ) + 1 / 2) * 2 ^ e < 1 := by
  have hm1 : (1 : ℚ) ≤ m := by exact_mod_cast Nat.one_le_iff_ne_zero.mpr hm
  -- a positive mantissa below one needs a negative exponent
  obtain ⟨n, rfl⟩ : ∃ n : Nat, e = -((n + 1 : Nat) : Int) := by
    refine ⟨(-e - 1).toNat, ?_⟩
    by_contra hne
    have : (1 : ℚ) ≤ 2 ^ e := one_le_zpow₀ (by norm_num) (by omega)
    nlinarith
  rw [zpow_neg, zpow_natCast, ← div_eq_mul_inv] at h ⊢
  have hP : (0 : ℚ) < 2 ^ (n + 1) := by positivity
  rw [div_lt_one hP] at h ⊢
  have hnat : m < 2 ^ (n + 1) := by exact_mod_cast h
  have : (m : ℚ) + 1 ≤ 2 ^ (n + 1) := by exact_mod_cast Nat.succ_le_of_lt hnat
  linarith

theorem shortestOf_digits_lt (hc : Canonical m e) (hm : m ≠ 0)
    (hnb : nb = decide (m = 2 ^ 52 ∧ -1074 < e)) (tie : Tie) :
    (shortestOf m e nb tie).digits < 10 ^ 17 := by
  obtain ⟨a, ha, d, hd, -, heq⟩ := @shortestOf_eq m e nb tie hc hm hnb
  rw [heq]
  calc (stripZeros d.digits d.exponent).1 < 10 ^ (a + 1) := withDigits_strip_lt hm (by omega) hd
    _ ≤ 10 ^ 17 := Nat.pow_le_pow_right (by norm_num) (by omega)

theorem shortestOf_point_bounds (hc : Canonical m e) (hm : m ≠ 0)
    (hnb : nb = decide (m = 2 ^ 52 ∧ -1074 < e)) (h : (m : ℚ) * 2 ^ e < 1) (tie : Tie) :
    -325 < (shortestOf m e nb tie).point (decimalLength (shortestOf m e nb tie).digits) ∧
      (shortestOf m e nb tie).point (decimalLength (shortestOf m e nb tie).digits) ≤ 0 := by
  set d := shortestOf m e nb tie
  have hr : ReadsBack m e (d.digits * 10 ^ d.exponent) := shortestOf_readsBack hc hm hnb
  have hD : 0 < d.digits := Nat.pos_of_ne_zero (shortestOf_digits_ne_zero hc hm hnb)
  obtain ⟨hlo, hhi⟩ := decimal_bounds (P := d.exponent) hD
  have hbelow : (d.digits : ℚ) * 10 ^ d.exponent < 1 :=
    lt_of_le_of_lt hr.bounds.2 (add_half_mul_lt_one hm h)
  have habove := hr.half_least_le hc hm
  unfold Decimal.point
  constructor
  · have : (10 : ℚ) ^ (-325 : Int) < 10 ^ ((decimalLength d.digits : Int) + d.exponent) := by
      linarith [ten_zpow_lt_half_least]
    exact (zpow_lt_zpow_iff_right₀ (by norm_num)).mp this
  · have : (10 : ℚ) ^ ((decimalLength d.digits : Int) - 1 + d.exponent) < 10 ^ (0 : Int) := by
      rw [zpow_zero]
      linarith
    have := (zpow_lt_zpow_iff_right₀ (by norm_num)).mp this
    omega

end Binary64

namespace Json

namespace Reader

-- ---------------------------------------------------------------------------
-- The text of a double in the unit interval
-- ---------------------------------------------------------------------------

section UnitDoubles

theorem readsValue_positionalText {ds : List Char} (hne : ds ≠ []) (hds : ∀ c ∈ ds, c.isDigit = true)
    (hfit : Binary64.digitsValue ds ≤ significandMax) {p : Int} (hp : p ≤ 0) :
    ∃ y, ReadsValue readDouble ((Notation.positionalText true ds p).map Char.toUInt8) y := by
  have hlen := List.length_pos_of_ne_nil hne
  have htext : Notation.positionalText true ds p = '0' :: '.' :: (List.replicate (-p).toNat '0' ++ ds) := by
    unfold Notation.positionalText
    rw [if_neg (by omega), if_neg (by omega), List.cons_append, List.cons_append]
  have hzs : ∀ c ∈ List.replicate (-p).toNat '0' ++ ds, c.isDigit = true := by
    intro c hc
    rcases List.mem_append.mp hc with hc | hc
    · rw [List.eq_of_mem_replicate hc]
      rfl
    · exact hds c hc
  obtain ⟨hdig, hfold⟩ := digitBytes hzs
  obtain ⟨g, gs, hg⟩ : ∃ g gs, (List.replicate (-p).toNat '0' ++ ds).map Char.toUInt8 = g :: gs := by
    cases h : List.replicate (-p).toNat '0' ++ ds with
    | nil => exact absurd (List.append_eq_nil_iff.mp h).2 hne
    | cons c cs => exact ⟨_, _, rfl⟩
  rw [hg] at hdig hfold
  rw [digitsValue_append, digitsValue_replicate_zero, Nat.zero_mul,
    Nat.zero_add] at hfold
  rw [htext, List.map_cons, List.map_cons, hg]
  exact readsValue_fractionText false (hdig g (List.mem_cons_self ..))
    (fun b hb => hdig b (List.mem_cons_of_mem _ hb)) (by rw [hfold]; exact hfit)

theorem readsValue_scientificJson {c : Char} {cs : List Char} (hc : c.isDigit = true) (hc0 : c ≠ '0')
    (hcs : ∀ x ∈ cs, x.isDigit = true) (hfit : Binary64.digitsValue (c :: cs) ≤ significandMax)
    {p : Int} (hp : -325 < p) (hneg : p - 1 < 0) :
    ∃ y, ReadsValue readDouble ((Notation.json.scientificText (c :: cs) p).map Char.toUInt8) y := by
  have hmax : 325 ≤ exponentMax := by decide
  have hexp : decimalDigits (p - 1).natAbs 1 = Nat.toDigits 10 (p - 1).natAbs := by
    unfold decimalDigits
    dsimp only
    rw [show 1 - (Nat.toDigits 10 (p - 1).natAbs).length = 0 from
      Nat.sub_eq_zero_of_le Nat.length_toDigits_pos]
    rfl
  obtain ⟨g, gs, hgs, hg0⟩ := head_toDigits (show 0 < (p - 1).natAbs by omega)
  have hgdig : ∀ x ∈ g :: gs, x.isDigit = true := fun x hx =>
    Nat.isDigit_of_mem_toDigits (by decide) (by decide) (hgs ▸ hx)
  obtain ⟨hgbytes, hgfold⟩ := digitBytes hgdig
  have hefit : foldDigits 0 ((g :: gs).map Char.toUInt8) ≤ exponentMax := by
    rw [hgfold, ← hgs, digitsValue_toDigits]
    omega
  have hcdig : ∀ x ∈ c :: cs, x.isDigit = true := fun x hx => by
    rcases List.mem_cons.mp hx with rfl | hx
    · exact hc
    · exact hcs x hx
  obtain ⟨hcbytes, hcfold⟩ := digitBytes hcdig
  have hmark : "e".toList = ['e'] := rfl
  have hpoint : '.'.toUInt8 = 46 := rfl
  have he : 'e'.toUInt8 = 101 := rfl
  have hminus : '-'.toUInt8 = 45 := rfl
  have hg := hgbytes (Char.toUInt8 g) (List.mem_cons_self ..)
  have hgs' : ∀ b ∈ gs.map Char.toUInt8, isDigit b = true := fun b hb =>
    hgbytes b (List.mem_cons_of_mem _ hb)
  unfold Notation.scientificText
  simp only [Notation.json, if_pos hneg, hexp, hgs, hmark]
  cases cs with
  | nil =>
    obtain ⟨y, hy⟩ := readsValue_scientificDigitText false (isDigit_toUInt8 hc) (toUInt8_ne_zero_digit hc hc0)
      hg (toUInt8_ne_zero_digit (hgdig g (List.mem_cons_self ..)) hg0) hgs' hefit
    refine ⟨y, ?_⟩
    simpa [signBytes, hpoint, he, hminus] using hy
  | cons f fs =>
    have hf := hcbytes (Char.toUInt8 f) (List.mem_cons_of_mem _ (List.mem_cons_self ..))
    have hfs : ∀ b ∈ fs.map Char.toUInt8, isDigit b = true := fun b hb =>
      hcbytes b (List.mem_cons_of_mem _ (List.mem_cons_of_mem _ hb))
    obtain ⟨y, hy⟩ := readsValue_scientificText false (isDigit_toUInt8 hc) (toUInt8_ne_zero_digit hc hc0)
      hf hfs hg (by simpa using hgs') (by rw [← List.map_cons, ← List.map_cons, hcfold]; exact hfit) hefit
    refine ⟨y, ?_⟩
    simpa [signBytes, hpoint, he, hminus] using hy

theorem textBytes_doubleText {x : Binary64} {negative : Bool} {m : Nat} {e : Int}
    (hs : x.shape = .finite negative m e) :
    textBytes (doubleText x) = signBytes negative ++
      (Notation.json.digitsText
        ((Binary64.shortestOf m e x.narrowBelow Notation.json.tie).digitChars
          (decimalLength (Binary64.shortestOf m e x.narrowBelow Notation.json.tie).digits))
        ((Binary64.shortestOf m e x.narrowBelow Notation.json.tie).point
          (decimalLength (Binary64.shortestOf m e x.narrowBelow Notation.json.tie).digits))).map Char.toUInt8 := by
  unfold doubleText Notation.shortest
  rw [if_pos (Binary64.isFinite_of_shape_finite hs), Binary64.withSpecials_finite _ _ hs,
    textBytes_ofList_ascii, List.map_append]
  · cases negative <;> rfl
  · intro c hc
    rcases List.mem_append.mp hc with hc | hc
    · cases negative
      · cases hc
      · rw [List.mem_singleton.mp hc]
        decide
    · rcases Binary64.layoutChars_digitsText Notation.json (.inr rfl)
        (fun c hc => isDigit_of_mem_decimalDigits hc) _ c hc with h | rfl | rfl | rfl | rfl | rfl
      · have := Binary64.toNat_of_isDigit h
        omega
      all_goals decide

theorem readsValue_doubleText {x : Binary64} (hx : x.inUnitInterval = true) :
    ∃ y, ReadsValue readDouble (textBytes (doubleText x)) y := by
  unfold Binary64.inUnitInterval at hx
  cases hs : x.shape with
  | nan => rw [hs] at hx; cases hx
  | infinite negative => rw [hs] at hx; cases hx
  | finite negative m e =>
    rw [hs] at hx
    rw [textBytes_doubleText hs]
    by_cases hm : m = 0
    · subst hm
      have hzero : Binary64.shortestOf 0 e x.narrowBelow Notation.json.tie = ⟨0, 0⟩ := by
        unfold Binary64.shortestOf
        rw [if_pos rfl]
      have htext : (Notation.json.digitsText ((⟨0, 0⟩ : Decimal).digitChars (decimalLength 0))
          ((⟨0, 0⟩ : Decimal).point (decimalLength 0))).map Char.toUInt8 = [48, 46, 48] := by
        rw [decimalLength_of_lt (by decide)]
        decide
      rw [hzero, htext]
      exact readsValue_fractionText negative rfl (by simp) (by decide)
    · have hx' : (m == 0 || (!negative && decide (m * Nat.pow 2 e.toNat < Nat.pow 2 (-e).toNat))) =
          true := hx
      simp only [beq_false_of_ne hm, Bool.false_or, Bool.and_eq_true, Bool.not_eq_true',
        decide_eq_true_eq] at hx'
      obtain ⟨rfl, hlt⟩ := hx'
      have hc := Binary64.canonical_of_shape hs
      have hnb := Binary64.narrowBelow_eq hs
      have hlt' := (Binary64.mul_two_zpow_lt_one_iff m e).mpr hlt
      obtain ⟨hlo, hhi⟩ := Binary64.shortestOf_point_bounds hc hm hnb hlt' Notation.json.tie
      have hD := Binary64.shortestOf_digits_lt hc hm hnb Notation.json.tie
      have hD0 : (Binary64.shortestOf m e x.narrowBelow Notation.json.tie).digits ≠ 0 :=
        Binary64.shortestOf_digits_ne_zero hc hm hnb
      set d := Binary64.shortestOf m e x.narrowBelow Notation.json.tie
      have hchars : d.digitChars (decimalLength d.digits) = Nat.toDigits 10 d.digits := by
        unfold Decimal.digitChars decimalDigits
        dsimp only
        rw [length_toDigits, Nat.sub_self, List.replicate_zero, List.nil_append]
      obtain ⟨c, cs, hcs, hc0⟩ := head_toDigits (Nat.pos_of_ne_zero hD0)
      have hdig : ∀ x ∈ c :: cs, x.isDigit = true := fun x hx =>
        Nat.isDigit_of_mem_toDigits (by decide) (by decide) (hcs ▸ hx)
      have hfit : Binary64.digitsValue (c :: cs) ≤ significandMax := by
        have hmax : 10 ^ 17 ≤ significandMax := by decide
        rw [← hcs, digitsValue_toDigits]
        omega
      rw [hchars, hcs, signBytes, if_neg Bool.false_ne_true, List.nil_append]
      unfold Notation.digitsText
      simp only [Notation.json]
      split_ifs with hwithin
      · exact readsValue_positionalText (List.cons_ne_nil c cs) hdig hfit hhi
      · exact readsValue_scientificJson (hdig c (List.mem_cons_self ..)) hc0
          (fun x hx => hdig x (List.mem_cons_of_mem _ hx)) hfit hlo (by omega)

end UnitDoubles

end Reader

end Json

end RoundRobin
