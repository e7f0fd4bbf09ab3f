import RoundRobin.Proofs.Json.Pretty
import RoundRobin.Source.Name

/-!
# Which texts are names

A name is one to nineteen bytes of ASCII letters, digits and underscores
(`NameChar`). `SourceName.ofString` accepts exactly those texts and keeps the
text as it is; it refuses every other text by the first check that fails, in
the order the checks are made: an empty text, then a text of more than
nineteen bytes, whatever characters it holds, then the first character that
is not allowed. The length is counted in bytes and the characters one by
one, so a text of few characters outside ASCII can be too long.

A name is written in JSON as a string of its own characters, none of which
needs an escape, and reads back as itself. Reading a name from JSON reads a
string and then checks it, so a JSON string is read as a name exactly when
its decoded text is one (`ofString_checks_in_order`).
-/

namespace RoundRobin

def NameChar (c : Char) : Prop :=
  ('A' ≤ c ∧ c ≤ 'Z') ∨ ('a' ≤ c ∧ c ≤ 'z') ∨ ('0' ≤ c ∧ c ≤ '9') ∨ c = '_'

theorem char_eq_iff_val (c d : Char) : c = d ↔ c.val.toNat = d.val.toNat := by
  rw [Char.ext_iff, UInt32.toNat_inj]

theorem nameChar_iff_val (c : Char) :
    NameChar c ↔ (65 ≤ c.val.toNat ∧ c.val.toNat ≤ 90) ∨ (97 ≤ c.val.toNat ∧ c.val.toNat ≤ 122) ∨
      (48 ≤ c.val.toNat ∧ c.val.toNat ≤ 57) ∨ c.val.toNat = 95 := by
  unfold NameChar
  simp only [Char.le_def, UInt32.le_iff_toNat_le, Char.reduceVal, UInt32.reduceToNat,
    char_eq_iff_val c '_']

theorem isNameChar_iff (c : Char) : isNameChar c = true ↔ NameChar c := by
  unfold isNameChar Char.isAlphanum Char.isAlpha Char.isUpper Char.isLower Char.isDigit
  simp only [Bool.or_eq_true, Bool.and_eq_true, decide_eq_true_eq, beq_iff_eq, char_eq_iff_val c '_',
    nameChar_iff_val, UInt32.le_iff_toNat_le, ge_iff_le, Char.reduceVal, UInt32.reduceToNat]
  omega

theorem isValidName_iff (s : String) :
    isValidName s = true ↔ 1 ≤ s.utf8ByteSize ∧ s.utf8ByteSize ≤ 19 ∧ ∀ c ∈ s.toList, NameChar c := by
  unfold isValidName String.isEmpty maxNameBytes
  simp only [Bool.and_eq_true, Bool.not_eq_true', beq_eq_false_iff_ne, decide_eq_true_eq,
    List.all_eq_true, isNameChar_iff]
  constructor
  · rintro ⟨⟨hne, hle⟩, hall⟩
    exact ⟨by omega, hle, hall⟩
  · rintro ⟨hpos, hle, hall⟩
    exact ⟨⟨by omega, hle⟩, hall⟩

theorem isPlainChar_of_nameChar {c : Char} (h : NameChar c) : Json.Reader.isPlainChar c = true := by
  rw [nameChar_iff_val] at h
  unfold Json.Reader.isPlainChar Char.toNat
  simp only [Bool.and_eq_true, decide_eq_true_eq, bne_iff_ne, ne_eq, char_eq_iff_val c,
    Char.reduceVal, UInt32.reduceToNat]
  omega

namespace SourceName

variable {s : String} {n : SourceName}

theorem plainText (n : SourceName) : Json.Reader.PlainText n.text := by
  have hall := ((isValidName_iff n.text).mp n.valid).2.2
  exact List.all_eq_true.mpr fun c hc => isPlainChar_of_nameChar (hall c hc)

-- ---------------------------------------------------------------------------
-- The checks, in order
-- ---------------------------------------------------------------------------

theorem isEmpty_eq_false (hs : s ≠ "") : s.isEmpty = false := by
  rw [Bool.eq_false_iff, ne_eq, String.isEmpty_iff]
  exact hs

theorem faultOf_of_empty (hs : s = "") : faultOf s = some .empty := by
  subst hs
  rfl

theorem faultOf_of_tooLong (hs : s ≠ "") (hl : 19 < s.utf8ByteSize) :
    faultOf s = some (.tooLong s.utf8ByteSize) := by
  have he := isEmpty_eq_false hs
  unfold faultOf
  rw [if_neg (by rw [he]; decide), if_pos (show s.utf8ByteSize > maxNameBytes from hl)]

theorem faultOf_of_forbidden {pre post : List Char} {c : Char} (hs : s ≠ "")
    (hl : s.utf8ByteSize ≤ 19) (h : s.toList = pre ++ c :: post) (hpre : ∀ d ∈ pre, NameChar d)
    (hc : ¬ NameChar c) : faultOf s = some (.forbidden c) := by
  have he := isEmpty_eq_false hs
  have hfind : s.toList.find? (fun c => !isNameChar c) = some c := by
    rw [List.find?_eq_some_iff_append]
    have hc' : isNameChar c = false := by
      rw [← Bool.not_eq_true, isNameChar_iff]
      exact hc
    refine ⟨by rw [hc']; rfl, pre, post, h, fun d hd => ?_⟩
    rw [(isNameChar_iff d).mpr (hpre d hd)]
    rfl
  unfold faultOf
  rw [if_neg (by rw [he]; decide), if_neg (by unfold maxNameBytes; omega), hfind]
  rfl

theorem ofString_of_faultOf {f : NameFault} (h : faultOf s = some f) : ofString s = .error ⟨s, f⟩ := by
  unfold ofString
  split
  · rename_i f' hf
    rw [h] at hf
    cases hf
    rfl
  · rename_i hf
    rw [h] at hf
    cases hf

theorem ofString_of_valid (h : isValidName s = true) : ofString s = .ok ⟨s, h⟩ := by
  unfold ofString
  split
  · rename_i f hf
    rw [(faultOf_eq_none_iff s).mpr h] at hf
    cases hf
  · rfl

theorem ofString_text (n : SourceName) : ofString n.text = .ok n := ofString_of_valid n.valid

theorem ofString_cases (s : String) :
    (∃ h : isValidName s = true, ofString s = .ok ⟨s, h⟩) ∨
    (isValidName s = false ∧ ∃ f, ofString s = .error ⟨s, f⟩) := by
  by_cases hv : isValidName s = true
  · exact .inl ⟨hv, ofString_of_valid hv⟩
  · refine .inr ⟨Bool.eq_false_iff.mpr hv, ?_⟩
    cases hf : faultOf s with
    | some f => exact ⟨f, ofString_of_faultOf hf⟩
    | none => exact absurd ((faultOf_eq_none_iff s).mp hf) hv

theorem exists_ofString_eq_ok_iff (s : String) : (∃ n, ofString s = .ok n) ↔ isValidName s = true := by
  rcases ofString_cases s with ⟨hv, hok⟩ | ⟨hv, f, herr⟩
  · exact ⟨fun _ => hv, fun _ => ⟨_, hok⟩⟩
  · rw [hv, herr]
    constructor
    · rintro ⟨_, h⟩
      cases h
    · intro h
      cases h

theorem text_of_ofString_eq_ok (h : ofString s = .ok n) : n.text = s := by
  rcases ofString_cases s with ⟨hv, hok⟩ | ⟨-, f, herr⟩
  · rw [hok] at h
    cases h
    rfl
  · rw [herr] at h
    cases h

-- ---------------------------------------------------------------------------
-- Names in JSON
-- ---------------------------------------------------------------------------

open Json.Reader in
theorem reads_reader_iff {bytes : ByteArray} {i j : Nat} :
    Reads reader bytes i n j ↔ ∃ s, Reads readString bytes i s j ∧ ofString s = .ok n := by
  unfold Reads reader
  rw [outcome_bind]
  rcases hs : outcome readString bytes i with ⟨_ | s, k⟩
  · constructor
    · intro h
      cases h
    · rintro ⟨s, h, -⟩
      cases h
  · rcases ofString_cases s with ⟨hv, hok⟩ | ⟨-, f, herr⟩
    · simp only [hok, outcome_pure]
      constructor
      · intro h
        cases h
        exact ⟨s, rfl, hok⟩
      · rintro ⟨s', h, hn⟩
        cases h
        rw [hok] at hn
        cases hn
        rfl
    · simp only [herr, failPlaceless, outcome_throw]
      constructor
      · intro h
        cases h
      · rintro ⟨s', h, hn⟩
        cases h
        rw [herr] at hn
        cases hn

open Json.Reader in
theorem ofJsonText_eq_ok_iff (text : String) :
    ofJsonText text = .ok n ↔ ∃ s, readAll readString text = .ok s ∧ ofString s = .ok n := by
  unfold ofJsonText
  simp only [readAll_eq_ok_iff, reads_reader_iff]
  constructor
  · rintro ⟨j, ⟨s, hs, hn⟩, hend⟩
    exact ⟨s, ⟨j, hs, hend⟩, hn⟩
  · rintro ⟨s, ⟨j, hs, hend⟩, hn⟩
    exact ⟨j, ⟨s, hs, hn⟩, hend⟩

open Json.Reader in
theorem readsValue_reader (n : SourceName) : ReadsValue reader (textBytes (Json.quote n.text)) n := by
  have hs : ReadsValue readString (textBytes (Json.quote n.text)) n.text :=
    readsValue_readString n.plainText
  intro bytes i ws rest hws hrest hb
  exact reads_reader_iff.mpr ⟨n.text, hs bytes i ws rest hws hrest hb, ofString_text n⟩

open Json.Reader in
theorem ofJsonText_of_readString {text : String} (htext : readAll readString text = .ok s) :
    ofJsonText text = .ok n ↔ ofString s = .ok n := by
  rw [ofJsonText_eq_ok_iff]
  constructor
  · rintro ⟨s', hs', hn⟩
    rw [htext] at hs'
    cases hs'
    exact hn
  · intro hn
    exact ⟨s, htext, hn⟩

open Json.Reader in
theorem ofJsonText_compact (n : SourceName) : ofJsonText (Json.compact n.toJson) = .ok n :=
  readAll_of_readsValue (readsValue_reader n)

/-- Names are checked in order. A text is accepted exactly when it has one to
nineteen bytes and every character is an ASCII letter, a digit or an
underscore, and then the name is the text itself. Otherwise the refusal names
the first check it fails: an empty text; a text of more than nineteen bytes,
with its length; or, within the length, the first character that is not
allowed. A name written as JSON reads back as itself, and a JSON string is
read as a name exactly when its decoded text is one. -/
theorem ofString_checks_in_order (s : String) :
    ((∃ n, ofString s = .ok n) ↔
      1 ≤ s.utf8ByteSize ∧ s.utf8ByteSize ≤ 19 ∧ ∀ c ∈ s.toList, NameChar c) ∧
    (∀ n, ofString s = .ok n → n.text = s) ∧
    (s = "" → ofString s = .error ⟨s, .empty⟩) ∧
    (s ≠ "" → 19 < s.utf8ByteSize → ofString s = .error ⟨s, .tooLong s.utf8ByteSize⟩) ∧
    (∀ (pre post : List Char) (c : Char), s ≠ "" → s.utf8ByteSize ≤ 19 →
      s.toList = pre ++ c :: post → (∀ d ∈ pre, NameChar d) → ¬ NameChar c →
      ofString s = .error ⟨s, .forbidden c⟩) ∧
    (∀ n : SourceName, ofJsonText (Json.compact n.toJson) = .ok n) ∧
    (∀ text, Json.Reader.readAll Json.Reader.readString text = .ok s →
      ∀ n, ofJsonText text = .ok n ↔ ofString s = .ok n) :=
  ⟨(exists_ofString_eq_ok_iff s).trans (isValidName_iff s), fun _ => text_of_ofString_eq_ok,
    fun hs => ofString_of_faultOf (faultOf_of_empty hs),
    fun hs hl => ofString_of_faultOf (faultOf_of_tooLong hs hl),
    fun _ _ _ hs hl h hpre hc => ofString_of_faultOf (faultOf_of_forbidden hs hl h hpre hc),
    ofJsonText_compact, fun _ htext _ => ofJsonText_of_readString htext⟩

end SourceName

end RoundRobin
