import RoundRobin.Json.Decode
import Mathlib.Data.List.Basic

/-!
# What the JSON readers consume

`Reads x bytes i a j` says that the reader `x`, run on `bytes` from index
`i`, gives `a` and stops at index `j`. Readers compose by `Reads.bind`.

Each lexical reader is described by the bytes it moves past, given as the
list `bytesFrom bytes i` of the bytes from the index on: whitespace up to the
first byte that is none, a string without escapes up to its closing quote,
the digits of a number up to the first byte that cannot continue it. The
readers of lists and records are then read element by element, by induction
over what the container holds.
-/

namespace RoundRobin

namespace Json

namespace Reader

def bytesFrom (bytes : ByteArray) (i : Nat) : List UInt8 := bytes.data.toList.drop i

def textBytes (s : String) : List UInt8 := s.toUTF8.data.toList

/-- What the reader `x` gives, run on `bytes` from index `i`: its result and
the index where it stopped. -/
def outcome {α : Type} (x : Reader α) (bytes : ByteArray) (i : Nat) : Except ReadError α × Nat :=
  (ExceptT.run (x bytes)).run i

/-- The reader `x`, run on `bytes` from index `i`, gives `a` and stops at `j`. -/
def Reads {α : Type} (x : Reader α) (bytes : ByteArray) (i : Nat) (a : α) (j : Nat) : Prop :=
  outcome x bytes i = (.ok a, j)

-- ---------------------------------------------------------------------------
-- Running readers in sequence
-- ---------------------------------------------------------------------------

section Monad

variable {α β : Type} {bytes : ByteArray} {i j k : Nat}

@[simp] theorem outcome_bind (x : Reader α) (f : α → Reader β) (bytes : ByteArray) (i : Nat) :
    outcome (x >>= f) bytes i =
      match outcome x bytes i with
      | (.ok a, j) => outcome (f a) bytes j
      | (.error e, j) => (.error e, j) := by
  show StateT.run (ExceptT.run (x bytes >>= fun a => f a bytes)) i = _
  simp only [ExceptT.run_bind, StateT.run_bind]
  unfold outcome
  rcases StateT.run (ExceptT.run (x bytes)) i with ⟨r, j⟩
  cases r <;> rfl

@[simp] theorem outcome_map (x : Reader α) (f : α → β) (bytes : ByteArray) (i : Nat) :
    outcome (f <$> x) bytes i =
      match outcome x bytes i with
      | (.ok a, j) => (.ok (f a), j)
      | (.error e, j) => (.error e, j) := by
  show StateT.run (ExceptT.run (f <$> x bytes)) i = _
  simp only [ExceptT.run_map, StateT.run_map]
  unfold outcome
  rcases StateT.run (ExceptT.run (x bytes)) i with ⟨r, j⟩
  cases r <;> rfl

@[simp] theorem outcome_tryCatch (x : Reader α) (handle : ReadError → Reader α) (bytes : ByteArray)
    (i : Nat) :
    outcome (tryCatch x handle) bytes i =
      match outcome x bytes i with
      | (.ok a, j) => (.ok a, j)
      | (.error e, j) => outcome (handle e) bytes j := by
  unfold outcome
  show StateT.run (ExceptT.tryCatch (x bytes) fun e => handle e bytes) i = _
  unfold ExceptT.tryCatch ExceptT.mk
  simp only [StateT.run_bind]
  show _ = match StateT.run (x bytes) i with
      | (Except.ok a, j) => (Except.ok a, j)
      | (Except.error e, j) => StateT.run (handle e bytes) j
  rcases StateT.run (x bytes) i with ⟨r, j⟩
  cases r <;> rfl

@[simp] theorem outcome_pure (a : α) (bytes : ByteArray) (i : Nat) :
    outcome (pure a : Reader α) bytes i = (.ok a, i) := rfl

@[simp] theorem outcome_read (bytes : ByteArray) (i : Nat) : outcome read bytes i = (.ok bytes, i) :=
  rfl

@[simp] theorem outcome_get (bytes : ByteArray) (i : Nat) : outcome get bytes i = (.ok i, i) := rfl

@[simp] theorem outcome_set (bytes : ByteArray) (i j : Nat) :
    outcome (set j : Reader PUnit) bytes i = (.ok (), j) := rfl

@[simp] theorem outcome_modify (f : Nat → Nat) (bytes : ByteArray) (i : Nat) :
    outcome (modify f : Reader PUnit) bytes i = (.ok (), f i) := rfl

@[simp] theorem outcome_throw (e : ReadError) (bytes : ByteArray) (i : Nat) :
    outcome (throw e : Reader α) bytes i = (.error e, i) := rfl

theorem Reads.bind {x : Reader α} {f : α → Reader β} {a : α} {b : β}
    (hx : Reads x bytes i a j) (hf : Reads (f a) bytes j b k) : Reads (x >>= f) bytes i b k := by
  unfold Reads at *
  rw [outcome_bind, hx]
  exact hf

theorem reads_pure (a : α) : Reads (pure a : Reader α) bytes i a i := rfl

theorem reads_settling {x : Reader α} {a : α} (hx : Reads x bytes i a j) :
    Reads (settling x) bytes i a j := by
  unfold Reads settling at *
  rw [outcome_tryCatch, hx]

theorem reads_enclosed {x : Reader α} {close : Reader Unit} {a : α}
    (hx : Reads x bytes i a j) (hc : Reads close bytes j () k) :
    Reads (enclosed x close) bytes i a k := by
  unfold Reads enclosed attempt at *
  simp only [outcome_bind, outcome_tryCatch, outcome_map, hx, hc]
  rfl

end Monad

-- ---------------------------------------------------------------------------
-- Bytes from an index
-- ---------------------------------------------------------------------------

section Bytes

variable {bytes : ByteArray} {i : Nat}

theorem getElem?_eq_head? (bytes : ByteArray) (i : Nat) : bytes[i]? = (bytesFrom bytes i).head? := by
  show bytes.data[i]? = _
  rw [bytesFrom, List.head?_drop, Array.getElem?_toList]

theorem bytesFrom_append {xs rest : List UInt8} (h : bytesFrom bytes i = xs ++ rest) :
    bytesFrom bytes (i + xs.length) = rest := by
  unfold bytesFrom at *
  rw [← List.drop_drop, h, List.drop_left]

theorem bytesFrom_cons {b : UInt8} {rest : List UInt8} (h : bytesFrom bytes i = b :: rest) :
    bytesFrom bytes (i + 1) = rest :=
  bytesFrom_append (show bytesFrom bytes i = [b] ++ rest from h)

theorem lt_size_of_cons {b : UInt8} {rest : List UInt8} (h : bytesFrom bytes i = b :: rest) :
    i < bytes.size := by
  refine Nat.lt_of_not_le fun hle => ?_
  unfold bytesFrom at h
  rw [List.drop_eq_nil_of_le (by simpa using hle)] at h
  cases h

theorem size_le_of_nil (h : bytesFrom bytes i = []) : bytes.size ≤ i := by
  unfold bytesFrom at h
  simpa using List.drop_eq_nil_iff.mp h

theorem getElem_of_cons {b : UInt8} {rest : List UInt8} (h : bytesFrom bytes i = b :: rest)
    (hi : i < bytes.size) : bytes[i] = b := by
  have : bytes[i]? = some b := by rw [getElem?_eq_head?, h]; rfl
  rw [getElem?_pos bytes i hi] at this
  exact Option.some.inj this

theorem toList_loop (bs : ByteArray) (i : Nat) (r : List UInt8) :
    ByteArray.toList.loop bs i r = r.reverse ++ bs.data.toList.drop i := by
  induction h : bs.size - i generalizing i r with
  | zero =>
    rw [ByteArray.toList.loop.eq_1, if_neg (by omega),
      List.drop_eq_nil_of_le (by simp only [Array.length_toList]; exact Nat.le_of_sub_eq_zero h),
      List.append_nil]
  | succ n ih =>
    have hi : i < bs.size := by omega
    rw [ByteArray.toList.loop.eq_1, if_pos hi, ih (i + 1) _ (by omega), List.reverse_cons,
      List.append_assoc, List.singleton_append]
    congr 1
    have hlen : i < bs.data.toList.length := by rw [Array.length_toList]; exact hi
    rw [List.drop_eq_getElem_cons (i := i) hlen]
    congr 1
    show bs.data[i]! = _
    rw [getElem!_pos bs.data i hi, Array.getElem_toList]

theorem toList_eq (bs : ByteArray) : bs.toList = bs.data.toList := by
  rw [ByteArray.toList, toList_loop]
  rfl

theorem toList_extract (bytes : ByteArray) (i n : Nat) :
    (bytes.extract i (i + n)).toList = (bytesFrom bytes i).take n := by
  rw [toList_eq, bytesFrom]
  simp

theorem textBytes_append (s t : String) : textBytes (s ++ t) = textBytes s ++ textBytes t := by
  simp [textBytes, String.toUTF8, String.toByteArray_append, ByteArray.data_append]

theorem textBytes_ofList_ascii {cs : List Char} (h : ∀ c ∈ cs, c.toNat < 128) :
    textBytes (String.ofList cs) = cs.map Char.toUInt8 := by
  unfold textBytes
  rw [String.toUTF8_eq_toByteArray, String.toByteArray_ofList]
  induction cs with
  | nil => rfl
  | cons c cs ih =>
    have hc : c.utf8Size = 1 := Char.utf8Size_eq_one_iff.2 (by
      rw [UInt32.le_iff_toNat_le]
      exact Nat.le_of_lt_succ (h c (List.mem_cons_self ..)))
    rw [List.utf8Encode_cons, ByteArray.data_append, Array.toList_append,
      ih (fun c hc => h c (List.mem_cons_of_mem _ hc)), List.utf8Encode_singleton,
      String.utf8EncodeChar_eq_singleton hc]
    rfl

end Bytes

-- ---------------------------------------------------------------------------
-- Single bytes and whitespace
-- ---------------------------------------------------------------------------

section Lexical

variable {bytes : ByteArray} {i : Nat} {b : UInt8} {rest : List UInt8}

@[simp] theorem outcome_peek (bytes : ByteArray) (i : Nat) :
    outcome peek bytes i = (.ok (bytesFrom bytes i).head?, i) := by
  rw [← getElem?_eq_head?]
  rfl

theorem isDigit_iff_toNat {b : UInt8} : isDigit b = true ↔ 48 ≤ b.toNat ∧ b.toNat ≤ 57 := by
  unfold isDigit
  simp only [Bool.and_eq_true, decide_eq_true_eq, UInt8.le_iff_toNat_le, UInt8.reduceToNat]

theorem ne_of_isDigit {b c : UInt8} (hb : isDigit b = true) (hc : isDigit c = false) : b ≠ c := by
  rintro rfl
  rw [hb] at hc
  cases hc

theorem isSpace_of_isDigit {b : UInt8} (hb : isDigit b = true) : isSpace b = false := by
  unfold isSpace
  simp only [Bool.or_eq_false_iff, beq_eq_false_iff_ne]
  exact ⟨⟨⟨ne_of_isDigit hb rfl, ne_of_isDigit hb rfl⟩, ne_of_isDigit hb rfl⟩, ne_of_isDigit hb rfl⟩

@[simp] theorem outcome_eat (bytes : ByteArray) (i : Nat) : outcome eat bytes i = (.ok (), i + 1) :=
  rfl

@[simp] theorem outcome_peekOrNull (bytes : ByteArray) (i : Nat) :
    outcome peekOrNull bytes i = (.ok ((bytesFrom bytes i).head?.getD 0), i) := by
  unfold peekOrNull
  simp only [outcome_bind, outcome_peek, outcome_pure]

theorem outcome_next_of_cons (h : bytesFrom bytes i = b :: rest) :
    outcome next bytes i = (.ok (some b), i + 1) := by
  unfold next
  simp only [outcome_bind, outcome_peek, h, List.head?_cons, Option.isSome_some, if_true,
    outcome_eat, outcome_pure]

theorem skipSpaceFrom_eq {ws : List UInt8} (hws : ∀ c ∈ ws, isSpace c = true)
    (hrest : rest.head?.all (fun c => !isSpace c) = true) (h : bytesFrom bytes i = ws ++ rest) :
    skipSpaceFrom bytes i = i + ws.length := by
  induction ws generalizing i with
  | nil =>
    rw [skipSpaceFrom]
    cases rest with
    | nil => rw [dif_neg (Nat.not_lt.mpr (size_le_of_nil h))]; rfl
    | cons c more =>
      have hc : isSpace c = false := by simpa using hrest
      rw [dif_pos (lt_size_of_cons h), getElem_of_cons h, hc]
      rfl
  | cons w ws ih =>
    have hw := hws w (List.mem_cons_self ..)
    rw [skipSpaceFrom, dif_pos (lt_size_of_cons h), getElem_of_cons h, if_pos hw,
      ih (fun c hc => hws c (List.mem_cons_of_mem _ hc)) (bytesFrom_cons h)]
    simp only [List.length_cons]
    omega

theorem outcome_skipSpace {ws : List UInt8} (hws : ∀ c ∈ ws, isSpace c = true)
    (hrest : rest.head?.all (fun c => !isSpace c) = true) (h : bytesFrom bytes i = ws ++ rest) :
    outcome skipSpace bytes i = (.ok rest.head?, i + ws.length) := by
  unfold skipSpace
  simp only [outcome_bind, outcome_read, outcome_modify, outcome_peek, skipSpaceFrom_eq hws hrest h,
    bytesFrom_append h]

end Lexical

-- ---------------------------------------------------------------------------
-- Strings without escapes
-- ---------------------------------------------------------------------------

section Strings

variable {bytes : ByteArray} {i : Nat} {rest : List UInt8}

/-- A byte that stands for itself inside a string: no quote, no backslash, no
control character. -/
def PlainByte (c : UInt8) : Prop := (c == 34 || c == 92 || c < 32) = false

theorem plainEnd_eq {ps : List UInt8} (hps : ∀ c ∈ ps, PlainByte c)
    (h : bytesFrom bytes i = ps ++ 34 :: rest) : plainEnd bytes i = i + ps.length := by
  induction ps generalizing i with
  | nil =>
    rw [plainEnd, dif_pos (lt_size_of_cons h), getElem_of_cons h]
    rfl
  | cons c ps ih =>
    have hc : (c == 34 || c == 92 || c < 32) = false := hps c (List.mem_cons_self ..)
    rw [plainEnd, dif_pos (lt_size_of_cons h)]
    simp only [getElem_of_cons h, hc, Bool.false_eq_true, if_false]
    rw [ih (fun c hc => hps c (List.mem_cons_of_mem _ hc)) (bytesFrom_cons h), List.length_cons]
    omega

theorem stringFrom_plain {ps : List UInt8} (hps : ∀ c ∈ ps, PlainByte c)
    (h : bytesFrom bytes i = ps ++ 34 :: rest) (decode : Bool) (out : List UInt8) :
    stringFrom bytes decode i out = .ok (out ++ ps, i + ps.length + 1) := by
  have hj := plainEnd_eq hps h
  have hq : bytes[i + ps.length]? = some 34 := by
    rw [getElem?_eq_head?, bytesFrom_append h]
    rfl
  rw [stringFrom]
  simp only [hj, hq, toList_extract, bytesFrom]
  rw [show (bytes.data.toList.drop i).take ps.length = ps by
    rw [← bytesFrom, h, List.take_left]]

theorem fromUTF8?_toUTF8 (s : String) : String.fromUTF8? s.toUTF8 = some s := by
  have hv : s.toUTF8.IsValidUTF8 := s.isValidUTF8
  unfold String.fromUTF8?
  rw [dif_pos hv]
  rfl

theorem reads_parseString {s : String} (hs : ∀ c ∈ textBytes s, PlainByte c)
    (h : bytesFrom bytes i = textBytes s ++ 34 :: rest) :
    Reads parseString bytes i s (i + (textBytes s).length + 1) := by
  have hb : ByteArray.mk (textBytes s).toArray = s.toUTF8 := by
    rw [textBytes, Array.toArray_toList]
  unfold Reads parseString
  simp only [outcome_bind, outcome_read, outcome_get, stringFrom_plain hs h true [], List.nil_append,
    outcome_set, outcome_pure, hb, fromUTF8?_toUTF8, Option.getD_some]

end Strings

-- ---------------------------------------------------------------------------
-- Digits
-- ---------------------------------------------------------------------------

section Digits

variable {bytes : ByteArray} {i : Nat} {rest : List UInt8}

def foldDigits (acc : Nat) (ds : List UInt8) : Nat := ds.foldl (fun a c => a * 10 + digitValue c) acc

@[simp] theorem foldDigits_nil (acc : Nat) : foldDigits acc [] = acc := rfl

@[simp] theorem foldDigits_cons (acc : Nat) (c : UInt8) (ds : List UInt8) :
    foldDigits acc (c :: ds) = foldDigits (acc * 10 + digitValue c) ds := by
  unfold foldDigits
  rw [List.foldl_cons]

theorem le_foldDigits (acc : Nat) (ds : List UInt8) : acc ≤ foldDigits acc ds := by
  induction ds generalizing acc with
  | nil => exact Nat.le_refl acc
  | cons c ds ih =>
    rw [foldDigits_cons]
    exact Nat.le_trans (by omega) (ih _)

theorem accumulateFrom_eq {ds : List UInt8} {limit acc : Nat} (hds : ∀ c ∈ ds, isDigit c = true)
    (hrest : rest.head?.all (fun c => !isDigit c) = true) (h : bytesFrom bytes i = ds ++ rest)
    (hfit : foldDigits acc ds ≤ limit) :
    accumulateFrom bytes limit i acc = (foldDigits acc ds, i + ds.length, false) := by
  induction ds generalizing i acc with
  | nil =>
    rw [accumulateFrom]
    cases rest with
    | nil => rw [dif_neg (Nat.not_lt.mpr (size_le_of_nil h))]; rfl
    | cons c more =>
      have hc : isDigit c = false := by simpa using hrest
      rw [dif_pos (lt_size_of_cons h), getElem_of_cons h, hc]
      rfl
  | cons c ds ih =>
    have hc := hds c (List.mem_cons_self ..)
    have hnext : acc * 10 + digitValue c ≤ limit :=
      Nat.le_trans (le_foldDigits _ ds) (by rw [← foldDigits_cons]; exact hfit)
    rw [accumulateFrom, dif_pos (lt_size_of_cons h)]
    simp only [getElem_of_cons h, hc, if_true]
    rw [if_neg (Nat.not_lt.mpr hnext),
      ih (fun c hc => hds c (List.mem_cons_of_mem _ hc)) (bytesFrom_cons h) hfit]
    simp only [foldDigits_cons, List.length_cons]
    congr 2
    omega

end Digits

-- ---------------------------------------------------------------------------
-- Numbers
-- ---------------------------------------------------------------------------

section Numbers

variable {bytes : ByteArray} {i : Nat} {rest : List UInt8}

/-- The double that a sign, a significand and a decimal exponent are assembled
into, unless it overflows. -/
def assembled (positive : Bool) (significand : Nat) (exponent : Int) : Option Binary64 :=
  (assemble (Binary64.ofInt significand) exponent (exponent.natAbs / 308 + 1)).map
    fun f => if positive then f else f.neg

theorem reads_fromParts {positive : Bool} {s : Nat} {e : Int} {y : Binary64}
    (h : assembled positive s e = some y) : Reads (fromParts positive s e) bytes i y i := by
  unfold assembled at h
  unfold fromParts
  cases ha : assemble (Binary64.ofInt s) e (e.natAbs / 308 + 1) with
  | none => rw [ha] at h; cases h
  | some f =>
    rw [ha] at h
    cases h
    exact reads_pure _

theorem assemble_isSome_of_neg (f : Binary64) {e : Int} (he : e < 0) (fuel : Nat) :
    (assemble f e fuel).isSome = true := by
  induction fuel generalizing f e with
  | zero => rfl
  | succ fuel ih =>
    unfold assemble
    split
    · rw [if_neg (by omega)]
      rfl
    · split
      · rfl
      · rw [if_neg (by omega)]
        by_cases he' : e + 308 < 0
        · exact ih _ he'
        · omega

end Numbers

-- ---------------------------------------------------------------------------
-- Values in their context
-- ---------------------------------------------------------------------------

/-- What may follow a value in JSON text: whitespace, a comma, the end of a
list or of an object, or the end of the text. -/
def Delimited (rest : List UInt8) : Prop :=
  rest.head?.all (fun c => isSpace c || c == 44 || c == 93 || c == 125) = true

/-- The reader `x` reads the text `t` as `a` wherever `t` stands after
whitespace and before a delimiter, and stops right after it. -/
def ReadsValue {α : Type} (x : Reader α) (t : List UInt8) (a : α) : Prop :=
  ∀ bytes i ws rest, (∀ c ∈ ws, isSpace c = true) → Delimited rest →
    bytesFrom bytes i = ws ++ t ++ rest → Reads x bytes i a (i + ws.length + t.length)

theorem Delimited.head_all {rest : List UInt8} (h : Delimited rest) :
    rest.head?.all (fun c => !isDigit c && c != 46 && c != 101 && c != 69) = true := by
  unfold Delimited at h
  cases rest with
  | nil => rfl
  | cons c r =>
    simp only [List.head?_cons, Option.all_some, isSpace, Bool.or_eq_true, beq_iff_eq] at h ⊢
    rcases h with (((((h | h) | h) | h) | h) | h) | h <;> subst h <;> rfl


end Reader

end Json

end RoundRobin
