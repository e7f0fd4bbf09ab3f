import RoundRobin.Proofs.Json.Numbers

/-!
# Reading pretty JSON text

`Json.pretty` puts every member and element of a container on a line of its
own. The readers of strings, lists and records read that text back: the list
reader reads one element per line, the record reader reads member after member
into its draft, and `readAll` reads a whole text. Each reader is described by a
`ReadsValue` of the text of a container, built from the `ReadsValue` of what it
contains; the loops are read by induction over the elements and members.
-/

namespace RoundRobin

namespace Json

namespace Reader

-- ---------------------------------------------------------------------------
-- Plain strings
-- ---------------------------------------------------------------------------

section Strings

def isPlainChar (c : Char) : Bool := 32 ≤ c.toNat && c.toNat < 128 && c != '"' && c != '\\'

def PlainText (s : String) : Prop := s.toList.all isPlainChar = true

variable {α : Type} {s : String}

theorem escapeChar_plain {c : Char} (h : isPlainChar c = true) : escapeChar c = [c] := by
  simp only [isPlainChar, Bool.and_eq_true, decide_eq_true_eq, bne_iff_ne, ne_eq] at h
  obtain ⟨⟨⟨hlo, _⟩, hq⟩, hb⟩ := h
  have hsmall : ∀ d : Char, d.toNat < 32 → c ≠ d := fun d hd hcd => by
    subst hcd
    omega
  unfold escapeChar
  rw [if_neg hq, if_neg hb, if_neg (hsmall '\n' (by decide)), if_neg (hsmall '\r' (by decide)),
    if_neg (hsmall '\t' (by decide)), if_neg (by omega), if_neg (by omega), if_neg (by omega)]

theorem textBytes_plain (h : PlainText s) : textBytes s = s.toList.map Char.toUInt8 := by
  unfold PlainText at h
  rw [← String.ofList_toList (s := s), textBytes_ofList_ascii, String.toList_ofList]
  intro c hc
  have := List.all_eq_true.mp h c hc
  simp only [isPlainChar, Bool.and_eq_true, decide_eq_true_eq] at this
  exact this.1.1.2

theorem textBytes_quote (h : PlainText s) : textBytes (quote s) = 34 :: textBytes s ++ [34] := by
  have hall := List.all_eq_true.mp h
  have hflat : s.toList.flatMap escapeChar = s.toList := by
    generalize s.toList = cs at hall ⊢
    induction cs with
    | nil => rfl
    | cons c cs ih =>
      rw [List.flatMap_cons, escapeChar_plain (hall c (List.mem_cons_self ..)),
        ih (fun d hd => hall d (List.mem_cons_of_mem _ hd))]
      rfl
  unfold quote
  rw [hflat, textBytes_ofList_ascii, textBytes_plain h, List.map_cons, List.map_append]
  · rfl
  intro c hc
  simp only [List.mem_cons, List.mem_append, List.not_mem_nil, or_false] at hc
  rcases hc with rfl | hc | rfl
  · decide
  · have := hall c hc
    simp only [isPlainChar, Bool.and_eq_true, decide_eq_true_eq] at this
    exact this.1.1.2
  · decide

theorem toNat_toUInt8_of_lt {c : Char} (h : c.toNat < 256) : c.toUInt8.toNat = c.toNat := by
  show c.val.toUInt8.toNat = c.val.toNat
  rw [UInt32.toNat_toUInt8]
  exact Nat.mod_eq_of_lt h

theorem plainByte_toUInt8 {c : Char} (h : isPlainChar c = true) : PlainByte c.toUInt8 := by
  simp only [isPlainChar, Bool.and_eq_true, decide_eq_true_eq, bne_iff_ne, ne_eq] at h
  obtain ⟨⟨⟨hlo, hhi⟩, hq⟩, hb⟩ := h
  have ht := toNat_toUInt8_of_lt (show c.toNat < 256 by omega)
  have hne : ∀ d : Char, c ≠ d → c.toUInt8.toNat ≠ d.toNat := fun d hcd hd =>
    hcd (Char.ext (UInt32.toNat_inj.mp (by rw [ht] at hd; exact hd)))
  have hq' := hne '"' hq
  have hb' := hne '\\' hb
  unfold PlainByte
  simp only [Bool.or_eq_false_iff, beq_eq_false_iff_ne, ne_eq, decide_eq_false_iff_not,
    UInt8.lt_iff_toNat_lt, ← UInt8.toNat_inj, UInt8.reduceToNat]
  refine ⟨⟨hq', hb'⟩, ?_⟩
  omega

theorem plainByte_of_plainText (h : PlainText s) : ∀ b ∈ textBytes s, PlainByte b := by
  rw [textBytes_plain h]
  intro b hb
  obtain ⟨c, hc, rfl⟩ := List.mem_map.mp hb
  exact plainByte_toUInt8 (List.all_eq_true.mp h c hc)

theorem readsValue_stringWith {expected : String} {visit : String → Except ReadFault α} {a : α}
    (h : PlainText s) (hv : visit s = .ok a) :
    ReadsValue (stringWith expected visit) (textBytes (quote s)) a := by
  intro bytes i ws rest hws _ hb
  rw [textBytes_quote h] at hb ⊢
  have h1 : bytesFrom bytes i = ws ++ 34 :: (textBytes s ++ 34 :: rest) := by
    rw [hb]
    simp only [List.append_assoc, List.cons_append, List.nil_append]
  have h2 : bytesFrom bytes (i + ws.length + 1) = textBytes s ++ 34 :: rest :=
    bytesFrom_cons (bytesFrom_append h1)
  have hp := reads_parseString (plainByte_of_plainText h) h2
  unfold Reads at hp ⊢
  unfold stringWith settling
  simp only [outcome_tryCatch, outcome_bind, outcome_skipSpace hws rfl h1, List.head?_cons,
    outcome_eat, hp, hv, ofResult_ok, outcome_pure, List.length_cons, List.length_append,
    List.length_nil, Prod.mk.injEq, true_and]
  omega

theorem readsValue_readString (h : PlainText s) : ReadsValue readString (textBytes (quote s)) s :=
  readsValue_stringWith h rfl

theorem ReadsValue.bind_pure {β : Type} {x : Reader α} {t : List UInt8} {a : α} (f : α → β)
    (h : ReadsValue x t a) : ReadsValue (x >>= fun y => pure (f y)) t (f a) := by
  intro bytes i ws rest hws hrest hb
  have hx := h bytes i ws rest hws hrest hb
  unfold Reads at hx ⊢
  simp only [outcome_bind, hx, outcome_pure]

theorem readsValue_readEnum {names : List String} {body : Nat → VariantBody α} {k : Nat} {a : α}
    (h : PlainText s) (hk : names.findIdx? (· == s) = some k) (hb : body k = .unit a) :
    ReadsValue (readEnum names body) (textBytes (quote s)) a := by
  intro bytes i ws rest hws hrest hbytes
  have hquote := textBytes_quote h
  have h1 : bytesFrom bytes i = ws ++ 34 :: (textBytes s ++ 34 :: rest) := by
    rw [hbytes, hquote]
    simp only [List.append_assoc, List.cons_append, List.nil_append]
  have hname : ReadsValue (variantIndex names) (textBytes (quote s)) k :=
    readsValue_stringWith h (by simp only [hk])
  have hk' := hname bytes (i + ws.length) [] rest (by simp) hrest
    (by rw [bytesFrom_append h1, hquote]; simp)
  unfold Reads at hk' ⊢
  unfold readEnum
  simp only [outcome_bind, outcome_skipSpace hws rfl h1, List.head?_cons, hk', hb, outcome_pure,
    List.length_nil, Nat.add_zero]

end Strings

-- ---------------------------------------------------------------------------
-- Lists
-- ---------------------------------------------------------------------------

section Lists

variable {α : Type} {elem : Reader α} {L : Nat} {bytes : ByteArray}

theorem textBytes_indent (level : Nat) : textBytes (indent level) = List.replicate (2 * level) 32 := by
  unfold indent
  rw [textBytes_ofList_ascii, List.map_replicate]
  · rfl
  · intro c hc
    rw [List.eq_of_mem_replicate hc]
    decide

theorem isSpace_of_mem_indent {c : UInt8} {n : Nat} (h : c ∈ List.replicate n 32) : isSpace c = true := by
  rw [List.eq_of_mem_replicate h]
  rfl

theorem isSpace_of_mem_lineIndent (n : Nat) : ∀ c ∈ 10 :: List.replicate n 32, isSpace c = true := by
  intro c hc
  rcases List.mem_cons.mp hc with rfl | hc
  · rfl
  · exact isSpace_of_mem_indent hc

/-- A text that starts a value: its first byte is neither whitespace nor the end
of a container. -/
def StartsValue (t : List UInt8) : Prop :=
  ∃ c cs, t = c :: cs ∧ isSpace c = false ∧ c ≠ 93 ∧ c ≠ 125

theorem startsValue_quote {s : String} (h : PlainText s) : StartsValue (textBytes (quote s)) :=
  ⟨34, _, textBytes_quote h, rfl, by decide, by decide⟩

/-- The elements of a list from one of them on, each after its separator (a line
feed before the first, a comma and a line feed before the others) and the
indentation of its level `L + 1`. -/
def itemsBytes (L : Nat) : Bool → List Json → List UInt8
  | _, [] => []
  | first, v :: vs => (if first then [10] else [44, 10]) ++ List.replicate (2 * (L + 1)) 32 ++
      textBytes (pretty (L + 1) v) ++ itemsBytes L false vs

theorem textBytes_prettyItems {items : List Json} (hne : items ≠ []) (first : Bool) :
    textBytes ((if first then "\n" else ",\n") ++ prettyItems (L + 1) items) = itemsBytes L first items := by
  induction items generalizing first with
  | nil => exact absurd rfl hne
  | cons v vs ih =>
    cases vs with
    | nil =>
      rw [prettyItems, itemsBytes, itemsBytes, List.append_nil, textBytes_append, textBytes_append,
        textBytes_indent]
      cases first <;> rfl
    | cons w ws =>
      rw [prettyItems, itemsBytes, ← ih (List.cons_ne_nil w ws) false]
      · simp only [textBytes_append, textBytes_indent, Bool.false_eq_true, if_false,
          List.append_assoc]
        cases first <;> rfl
      · exact List.cons_ne_nil w ws

theorem textBytes_pretty_arr {items : List Json} (hne : items ≠ []) :
    textBytes (pretty L (.arr items)) =
      91 :: itemsBytes L true items ++ 10 :: List.replicate (2 * L) 32 ++ [93] := by
  obtain ⟨v, vs, rfl⟩ := List.exists_cons_of_ne_nil hne
  simp only [pretty]
  rw [← textBytes_prettyItems hne true]
  simp only [textBytes_append, textBytes_indent, if_true, List.append_assoc]
  rfl

theorem outcome_hasNextElement_end {first : Bool} {i : Nat} {ws rest : List UInt8}
    (hws : ∀ c ∈ ws, isSpace c = true) (h : bytesFrom bytes i = ws ++ 93 :: rest) :
    outcome (hasNextElement first) bytes i = (.ok false, i + ws.length) := by
  unfold hasNextElement
  simp only [outcome_bind, outcome_skipSpace hws rfl h, List.head?_cons]
  rfl

theorem outcome_hasNextElement {first : Bool} {i : Nat} {ws rest : List UInt8} {c : UInt8}
    (hws : ∀ c ∈ ws, isSpace c = true) (hc : isSpace c = false) (hc93 : c ≠ 93)
    (h : bytesFrom bytes i = (if first then [] else [44]) ++ ws ++ c :: rest) :
    outcome (hasNextElement first) bytes i =
      (.ok true, i + (if first then 0 else 1) + ws.length) := by
  cases first with
  | true =>
    simp only [if_true, List.nil_append] at h
    unfold hasNextElement
    simp only [outcome_bind, outcome_skipSpace hws (by simpa using hc) h, List.head?_cons]
    split
    · rename_i heq
      exact absurd (Option.some.inj heq) hc93
    · simp only [↓reduceIte, outcome_bind, outcome_pure, Nat.add_zero]
      rfl
    · simp only [↓reduceIte, outcome_bind, outcome_pure, Nat.add_zero]
    · rename_i heq
      cases heq
  | false =>
    simp only [Bool.false_eq_true, if_false, List.singleton_append] at h
    have h' : bytesFrom bytes (i + 1) = ws ++ c :: rest := bytesFrom_cons h
    unfold hasNextElement
    simp only [outcome_bind, outcome_skipSpace (by simp) rfl
      (show bytesFrom bytes i = ([] : List UInt8) ++ 44 :: (ws ++ c :: rest) from h), List.head?_cons,
      Bool.false_eq_true, ↓reduceIte, outcome_eat, List.length_nil, Nat.add_zero,
      outcome_skipSpace hws (by simpa using hc) h']
    rfl

theorem delimited_itemsBytes (vs : List Json) (rest : List UInt8) :
    Delimited (itemsBytes L false vs ++ 10 :: rest) := by
  cases vs with
  | nil => rfl
  | cons w ws => rfl

/-- The element predicate of the list reader: the element reader reads the
pretty text of each element, which starts a value. -/
def ItemRead (elem : Reader α) (level : Nat) (v : Json) (a : α) : Prop :=
  ReadsValue elem (textBytes (pretty level v)) a ∧ StartsValue (textBytes (pretty level v))

theorem outcome_elementsLoop {items : List Json} {as : List α}
    (hitems : List.Forall₂ (ItemRead elem (L + 1)) items as) :
    ∀ (first : Bool) (acc : List α) (fuel i : Nat) (rest : List UInt8), items.length < fuel →
      (first = true → items ≠ []) →
      bytesFrom bytes i = itemsBytes L first items ++ 10 :: List.replicate (2 * L) 32 ++ 93 :: rest →
      outcome (elementsLoop elem fuel first acc) bytes i =
        (.ok (acc ++ as), i + (itemsBytes L first items).length + (2 * L + 1)) := by
  induction hitems with
  | nil =>
    intro first acc fuel i rest hfuel hfirst h
    cases first with
    | true => exact absurd rfl (hfirst rfl)
    | false =>
      obtain ⟨f, rfl⟩ : ∃ f, fuel = f + 1 := ⟨fuel - 1, by simp at hfuel; omega⟩
      have hws : ∀ c ∈ 10 :: List.replicate (2 * L) 32, isSpace c = true := by
        intro c hc
        rcases List.mem_cons.mp hc with rfl | hc
        · rfl
        · exact isSpace_of_mem_indent hc
      unfold elementsLoop
      simp only [outcome_bind, outcome_hasNextElement_end hws (by simpa [itemsBytes] using h),
        Bool.false_eq_true, ↓reduceIte, outcome_pure, List.append_nil, itemsBytes, List.length_nil,
        List.length_cons, List.length_replicate, Nat.add_zero]
  | @cons v a vs bs hv _ ih =>
    intro first acc fuel i rest hfuel _ h
    obtain ⟨f, rfl⟩ : ∃ f, fuel = f + 1 := ⟨fuel - 1, by simp at hfuel; omega⟩
    obtain ⟨hread, c, cs, hpv, hc, hc93, -⟩ := hv
    have hind : ∀ c ∈ 10 :: List.replicate (2 * (L + 1)) 32, isSpace c = true := by
      intro c hc
      rcases List.mem_cons.mp hc with rfl | hc
      · rfl
      · exact isSpace_of_mem_indent hc
    set tail := 10 :: List.replicate (2 * L) 32 ++ 93 :: rest
    have hsep : bytesFrom bytes i = (if first then [] else [44]) ++
        (10 :: List.replicate (2 * (L + 1)) 32) ++ c :: (cs ++ itemsBytes L false vs ++ tail) := by
      rw [h, itemsBytes, hpv]
      cases first <;> simp [tail]
    set j := i + ((if first then [] else [44]) ++ (10 :: List.replicate (2 * (L + 1)) 32) : List UInt8).length
    have helem : bytesFrom bytes j = [] ++ textBytes (pretty (L + 1) v) ++ (itemsBytes L false vs ++ tail) := by
      have := bytesFrom_append hsep
      rw [hpv]
      simp only [List.nil_append, List.cons_append, List.append_assoc] at this ⊢
      exact this
    have hj : j = i + (if first then 0 else 1) + (10 :: List.replicate (2 * (L + 1)) 32 : List UInt8).length := by
      simp only [j]
      cases first <;>
        simp only [Bool.false_eq_true, ↓reduceIte, List.length_append, List.length_cons,
          List.length_nil, List.length_replicate] <;> omega
    have hread' := hread bytes j [] _ (by simp) (delimited_itemsBytes vs _) helem
    unfold Reads at hread'
    have hnext := bytesFrom_append helem
    simp only [List.length_nil, Nat.add_zero, List.nil_append] at hread' hnext
    unfold elementsLoop
    simp only [outcome_bind, outcome_hasNextElement hind hc hc93 hsep, ← hj, ↓reduceIte, hread']
    rw [ih false (acc ++ [a]) f _ rest (by simp at hfuel; omega) (fun h => nomatch h)
      (by rw [hnext, List.append_assoc])]
    rw [hj, itemsBytes, List.append_assoc, List.singleton_append]
    cases first <;> simp <;> omega

theorem length_bytesFrom (bytes : ByteArray) (i : Nat) : (bytesFrom bytes i).length = bytes.size - i := by
  simp [bytesFrom]

theorem length_le_itemsBytes (first : Bool) (items : List Json) :
    items.length ≤ (itemsBytes L first items).length := by
  induction items generalizing first with
  | nil => simp [itemsBytes]
  | cons v vs ih =>
    have := ih false
    cases first <;> simp [itemsBytes] <;> omega

theorem reads_closeList {i : Nat} {rest : List UInt8} (h : bytesFrom bytes i = 93 :: rest) :
    Reads closeList bytes i () (i + 1) := by
  unfold Reads closeList
  simp only [outcome_bind, outcome_skipSpace (by simp) rfl
    (show bytesFrom bytes i = ([] : List UInt8) ++ 93 :: rest from h), List.head?_cons, outcome_eat,
    List.length_nil, Nat.add_zero]

theorem readsValue_readList {items : List Json} {as : List α} (hne : items ≠ [])
    (hitems : List.Forall₂ (ItemRead elem (L + 1)) items as) :
    ReadsValue (readList elem) (textBytes (pretty L (.arr items))) as := by
  intro bytes i ws rest hws _ h
  rw [textBytes_pretty_arr hne] at h ⊢
  have h1 : bytesFrom bytes i =
      ws ++ 91 :: (itemsBytes L true items ++ 10 :: List.replicate (2 * L) 32 ++ 93 :: rest) := by
    rw [h]
    simp only [List.append_assoc, List.cons_append, List.nil_append]
  have h2 := bytesFrom_cons (bytesFrom_append h1)
  -- the fuel, one more than the size of the text, exceeds the number of elements
  have hfuel : items.length < bytes.size + 1 := by
    have hlen := congrArg List.length h2
    have := length_le_itemsBytes (L := L) true items
    rw [length_bytesFrom] at hlen
    simp only [List.length_append, List.length_cons] at hlen
    omega
  have hloop := outcome_elementsLoop hitems true [] (bytes.size + 1) _ rest hfuel (fun _ => hne) h2
  rw [List.nil_append] at hloop
  have h3 : bytesFrom bytes (i + ws.length + 1 + (itemsBytes L true items).length + (2 * L + 1)) =
      93 :: rest := by
    have := bytesFrom_append (show bytesFrom bytes (i + ws.length + 1) =
      (itemsBytes L true items ++ 10 :: List.replicate (2 * L) 32) ++ 93 :: rest by
        rw [h2, List.append_assoc])
    simpa [Nat.add_assoc] using this
  have hread := reads_enclosed hloop (reads_closeList h3)
  unfold Reads at hread
  unfold readList
  apply reads_settling
  unfold Reads
  simp only [outcome_bind, outcome_skipSpace hws rfl h1, List.head?_cons, outcome_eat, outcome_read,
    hread, List.length_append, List.length_cons, List.length_replicate, List.length_nil,
    Prod.mk.injEq, true_and]
  omega

end Lists

-- ---------------------------------------------------------------------------
-- Records
-- ---------------------------------------------------------------------------

section Records

variable {α β : Type} {L : Nat} {bytes : ByteArray}

/-- The members of an object from one of them on, each after its separator and
the indentation of level `L + 1`: the quoted key, a colon and a blank, then the
value. -/
def membersBytes (L : Nat) : Bool → List (String × Json) → List UInt8
  | _, [] => []
  | first, (k, v) :: ms => (if first then [10] else [44, 10]) ++ List.replicate (2 * (L + 1)) 32 ++
      textBytes (quote k) ++ 58 :: 32 :: textBytes (pretty (L + 1) v) ++ membersBytes L false ms

theorem textBytes_prettyMembers {members : List (String × Json)} (hne : members ≠ []) (first : Bool) :
    textBytes ((if first then "\n" else ",\n") ++ prettyMembers (L + 1) members) =
      membersBytes L first members := by
  induction members generalizing first with
  | nil => exact absurd rfl hne
  | cons m ms ih =>
    obtain ⟨k, v⟩ := m
    cases ms with
    | nil =>
      rw [prettyMembers, membersBytes, membersBytes, List.append_nil]
      simp only [textBytes_append, textBytes_indent, List.append_assoc]
      cases first <;> rfl
    | cons m' ms' =>
      rw [prettyMembers, membersBytes, ← ih (List.cons_ne_nil m' ms') false]
      · simp only [textBytes_append, textBytes_indent, Bool.false_eq_true, if_false,
          List.append_assoc]
        cases first <;> rfl
      · exact List.cons_ne_nil m' ms'

theorem textBytes_pretty_obj {members : List (String × Json)} (hne : members ≠ []) :
    textBytes (pretty L (.obj members)) =
      123 :: membersBytes L true members ++ 10 :: List.replicate (2 * L) 32 ++ [125] := by
  obtain ⟨m, ms, rfl⟩ := List.exists_cons_of_ne_nil hne
  simp only [pretty]
  rw [← textBytes_prettyMembers hne true]
  simp only [textBytes_append, textBytes_indent, if_true, List.append_assoc]
  rfl

theorem startsValue_pretty_obj {members : List (String × Json)} (hne : members ≠ []) :
    StartsValue (textBytes (pretty L (.obj members))) :=
  ⟨123, _, textBytes_pretty_obj hne, rfl, by decide, by decide⟩

theorem length_le_membersBytes (first : Bool) (members : List (String × Json)) :
    members.length ≤ (membersBytes L first members).length := by
  induction members generalizing first with
  | nil => simp [membersBytes]
  | cons m ms ih =>
    have := ih false
    cases first <;> simp [membersBytes] <;> omega

theorem outcome_nextKey_end {first : Bool} {i : Nat} {ws rest : List UInt8}
    (hws : ∀ c ∈ ws, isSpace c = true) (h : bytesFrom bytes i = ws ++ 125 :: rest) :
    outcome (nextKey first) bytes i = (.ok none, i + ws.length) := by
  unfold nextKey
  simp only [outcome_bind, outcome_skipSpace hws rfl h, List.head?_cons]
  rfl

theorem outcome_nextKey {first : Bool} {i : Nat} {ws rest : List UInt8} {key : String}
    (hws : ∀ c ∈ ws, isSpace c = true) (hkey : PlainText key)
    (h : bytesFrom bytes i = (if first then [] else [44]) ++ ws ++ textBytes (quote key) ++ rest) :
    outcome (nextKey first) bytes i =
      (.ok (some key), i + (if first then 0 else 1) + ws.length + (textBytes (quote key)).length) := by
  rw [textBytes_quote hkey] at h ⊢
  cases first with
  | true =>
    simp only [if_true, List.nil_append] at h
    have h' : bytesFrom bytes i = ws ++ 34 :: (textBytes key ++ 34 :: rest) := by
      rw [h]
      simp only [List.cons_append, List.append_assoc, List.nil_append]
    have hk := reads_parseString (plainByte_of_plainText hkey) (bytesFrom_cons (bytesFrom_append h'))
    unfold Reads at hk
    unfold nextKey
    simp only [outcome_bind, outcome_skipSpace hws rfl h', List.head?_cons]
    split
    · rename_i heq
      simp at heq
    · rename_i heq
      simp at heq
    · rename_i heq
      cases heq
      simp only [↓reduceIte, outcome_bind, outcome_pure, outcome_eat, hk, List.length_cons,
        List.length_append, List.length_nil, Prod.mk.injEq, true_and]
      omega
    · rename_i heq
      simp at heq
  | false =>
    have h0 : bytesFrom bytes i = [] ++ 44 :: (ws ++ 34 :: (textBytes key ++ 34 :: rest)) := by
      rw [h]
      simp only [Bool.false_eq_true, if_false, List.cons_append, List.append_assoc, List.nil_append]
    have h' := bytesFrom_cons h0
    have hk := reads_parseString (plainByte_of_plainText hkey) (bytesFrom_cons (bytesFrom_append h'))
    unfold Reads at hk
    unfold nextKey
    simp only [outcome_bind, outcome_skipSpace (by simp) rfl h0, List.head?_cons, Bool.false_eq_true,
      ↓reduceIte, outcome_eat, List.length_nil, Nat.add_zero, outcome_skipSpace hws rfl h',
      outcome_pure, hk, List.length_cons, List.length_append, Prod.mk.injEq, true_and]
    omega

theorem reads_objectColon {i : Nat} {rest : List UInt8} (h : bytesFrom bytes i = 58 :: rest) :
    Reads objectColon bytes i () (i + 1) := by
  unfold Reads objectColon
  simp only [outcome_bind, outcome_skipSpace (by simp) rfl
    (show bytesFrom bytes i = ([] : List UInt8) ++ 58 :: rest from h), List.head?_cons, outcome_eat,
    List.length_nil, Nat.add_zero]

theorem reads_closeObject {i : Nat} {rest : List UInt8} (h : bytesFrom bytes i = 125 :: rest) :
    Reads closeObject bytes i () (i + 1) := by
  unfold Reads closeObject
  simp only [outcome_bind, outcome_skipSpace (by simp) rfl
    (show bytesFrom bytes i = ([] : List UInt8) ++ 125 :: rest from h), List.head?_cons, outcome_eat,
    List.length_nil, Nat.add_zero]

theorem delimited_membersBytes (ms : List (String × Json)) (rest : List UInt8) :
    Delimited (membersBytes L false ms ++ 10 :: rest) := by
  cases ms with
  | nil => rfl
  | cons m ms => rfl

/-- The members, in order, name fields of the shape that the draft does not hold
yet, and the shape reads each value into the draft, taking it from `acc` to
`acc'`. -/
def FieldsRead (shape : RecordShape α β) (level : Nat) : List (String × Json) → β → β → Prop
  | [], acc, acc' => acc' = acc
  | (key, v) :: ms, acc, acc' => PlainText key ∧ ∃ k mid,
      shape.fields.findIdx? (· == key) = some k ∧ shape.filled acc k = false ∧
      ReadsValue (shape.readField k acc) (textBytes (pretty level v)) mid ∧
      FieldsRead shape level ms mid acc'

theorem outcome_membersLoop {shape : RecordShape α β} (members : List (String × Json)) :
    ∀ (first : Bool) (acc acc' : β) (fuel i : Nat) (rest : List UInt8),
      FieldsRead shape (L + 1) members acc acc' → members.length < fuel →
      (first = true → members ≠ []) →
      bytesFrom bytes i = membersBytes L first members ++ 10 :: List.replicate (2 * L) 32 ++ 125 :: rest →
      outcome (membersLoop shape fuel first acc) bytes i =
        (.ok acc', i + (membersBytes L first members).length + (2 * L + 1)) := by
  induction members with
  | nil =>
    intro first acc acc' fuel i rest hread hfuel hfirst h
    cases first with
    | true => exact absurd rfl (hfirst rfl)
    | false =>
      obtain ⟨f, rfl⟩ : ∃ f, fuel = f + 1 := ⟨fuel - 1, by simp at hfuel; omega⟩
      cases hread
      unfold membersLoop
      simp only [outcome_bind, outcome_nextKey_end (isSpace_of_mem_lineIndent (2 * L))
        (by simpa [membersBytes] using h), outcome_pure, membersBytes, List.length_nil,
        List.length_cons, List.length_replicate, Nat.add_zero]
  | cons m ms ih =>
    obtain ⟨key, v⟩ := m
    intro first acc acc' fuel i rest hread hfuel _ h
    obtain ⟨f, rfl⟩ : ∃ f, fuel = f + 1 := ⟨fuel - 1, by simp at hfuel; omega⟩
    obtain ⟨hkey, k, mid, hk, hfree, hval, hrest⟩ := hread
    set tail := 10 :: List.replicate (2 * L) 32 ++ 125 :: rest
    set sep : List UInt8 := if first then [] else [44]
    set ind : List UInt8 := 10 :: List.replicate (2 * (L + 1)) 32
    have hsep : bytesFrom bytes i = sep ++ ind ++ textBytes (quote key) ++
        58 :: (([32] ++ textBytes (pretty (L + 1) v)) ++ (membersBytes L false ms ++ tail)) := by
      rw [h, membersBytes]
      cases first <;> simp [tail, sep, ind]
    have hcolon := bytesFrom_append hsep
    have hcolon' := reads_objectColon hcolon
    have hkeyEnd : i + (if first then 0 else 1) +
        (10 :: List.replicate (2 * (L + 1)) 32 : List UInt8).length + (textBytes (quote key)).length =
        i + (sep ++ ind ++ textBytes (quote key)).length := by
      cases first <;> simp [sep, ind] <;> omega
    unfold Reads at hcolon'
    unfold membersLoop
    simp only [outcome_bind, outcome_nextKey (isSpace_of_mem_lineIndent _) hkey hsep, hk, hfree,
      Bool.false_eq_true, ↓reduceIte, hkeyEnd, hcolon']
    have hvalue := bytesFrom_cons hcolon
    set p := i + (sep ++ ind ++ textBytes (quote key)).length + 1
    have hread := hval bytes p [32] _ (fun c hc => by rw [List.mem_singleton.mp hc]; rfl)
      (delimited_membersBytes ms _) hvalue
    have hnext := bytesFrom_append hvalue
    rw [List.length_append, ← Nat.add_assoc] at hnext
    unfold Reads at hread
    simp only [hread]
    rw [ih false mid acc' f _ rest hrest (by simp at hfuel; omega) (fun h => nomatch h)
      (by rw [hnext, List.append_assoc])]
    rw [membersBytes]
    cases first <;> simp [p, sep, ind] <;> omega

theorem outcome_foldlM_of_pure {f : β → Nat → Reader β} {acc : β} {i : Nat} :
    ∀ ks : List Nat, (∀ k ∈ ks, f acc k = pure acc) → outcome (ks.foldlM f acc) bytes i = (.ok acc, i)
  | [], _ => rfl
  | k :: ks, h => by
    rw [List.foldlM_cons, outcome_bind, h k (List.mem_cons_self ..), outcome_pure]
    exact outcome_foldlM_of_pure ks (fun k' hk' => h k' (List.mem_cons_of_mem _ hk'))

theorem outcome_completeRecord {shape : RecordShape α β} {acc : β} {a : α} {i : Nat}
    (hfilled : ∀ k < shape.fields.length, shape.filled acc k = true) (hb : shape.build acc = some a) :
    outcome (completeRecord shape acc) bytes i = (.ok a, i) := by
  unfold completeRecord
  rw [outcome_bind, outcome_foldlM_of_pure _ (fun k hk => by
    simp only [hfilled k (List.mem_range.mp hk), if_true])]
  simp only [hb, outcome_pure]

theorem readsValue_readRecord {shape : RecordShape α β} {members : List (String × Json)}
    {acc : β} {a : α} (hne : members ≠ []) (hread : FieldsRead shape (L + 1) members shape.empty acc)
    (hfilled : ∀ k < shape.fields.length, shape.filled acc k = true) (hb : shape.build acc = some a) :
    ReadsValue (readRecord shape) (textBytes (pretty L (.obj members))) a := by
  intro bytes i ws rest hws _ h
  rw [textBytes_pretty_obj hne] at h ⊢
  have h1 : bytesFrom bytes i =
      ws ++ 123 :: (membersBytes L true members ++ 10 :: List.replicate (2 * L) 32 ++ 125 :: rest) := by
    rw [h]
    simp only [List.append_assoc, List.cons_append, List.nil_append]
  have h2 := bytesFrom_cons (bytesFrom_append h1)
  have hfuel : members.length < bytes.size + 1 := by
    have hlen := congrArg List.length h2
    have := length_le_membersBytes (L := L) true members
    rw [length_bytesFrom] at hlen
    simp only [List.length_append, List.length_cons] at hlen
    omega
  have hloop := outcome_membersLoop members true shape.empty acc (bytes.size + 1) _ rest hread hfuel
    (fun _ => hne) h2
  have h3 : bytesFrom bytes (i + ws.length + 1 + (membersBytes L true members).length + (2 * L + 1)) =
      125 :: rest := by
    have := bytesFrom_append (show bytesFrom bytes (i + ws.length + 1) =
      (membersBytes L true members ++ 10 :: List.replicate (2 * L) 32) ++ 125 :: rest by
        rw [h2, List.append_assoc])
    simpa [Nat.add_assoc] using this
  have hcontent : Reads (do completeRecord shape (← membersLoop shape (bytes.size + 1) true shape.empty))
      bytes (i + ws.length + 1) a (i + ws.length + 1 + (membersBytes L true members).length + (2 * L + 1)) := by
    unfold Reads
    rw [outcome_bind, hloop]
    exact outcome_completeRecord hfilled hb
  have hrecord := reads_enclosed hcontent (reads_closeObject h3)
  unfold Reads at hrecord
  unfold readRecord
  apply reads_settling
  unfold Reads
  simp only [outcome_bind, outcome_skipSpace hws rfl h1, List.head?_cons, outcome_eat, outcome_read,
    hrecord, List.length_append, List.length_cons, List.length_replicate, List.length_nil,
    Prod.mk.injEq, true_and]
  omega

end Records

-- ---------------------------------------------------------------------------
-- Whole texts
-- ---------------------------------------------------------------------------

section Whole

variable {α : Type} {x : Reader α} {text : String} {a : α}

theorem runOn_eq (x : Reader α) (text : String) : runOn x text = (outcome x text.toUTF8 0).1 := rfl

theorem outcome_skipSpace_eq (bytes : ByteArray) (i : Nat) :
    outcome skipSpace bytes i =
      (.ok (bytesFrom bytes (skipSpaceFrom bytes i)).head?, skipSpaceFrom bytes i) := by
  unfold skipSpace
  simp only [outcome_bind, outcome_read, outcome_modify, outcome_peek]

theorem outcome_failAhead (fault : ReadFault) (bytes : ByteArray) (i : Nat) :
    ∃ e, outcome (failAhead fault : Reader α) bytes i = (.error e, i) := by
  unfold failAhead
  simp only [outcome_bind, outcome_read, outcome_get, outcome_throw]
  exact ⟨_, rfl⟩

theorem readAll_eq_ok_iff : readAll x text = .ok a ↔
    ∃ j, Reads x text.toUTF8 0 a j ∧ bytesFrom text.toUTF8 (skipSpaceFrom text.toUTF8 j) = [] := by
  unfold readAll Reads
  rw [runOn_eq, outcome_bind]
  rcases hx : outcome x text.toUTF8 0 with ⟨_ | a', j⟩
  · constructor
    · intro h
      cases h
    · rintro ⟨j', h, -⟩
      cases h
  · simp only [outcome_bind, outcome_skipSpace_eq]
    -- the value stands unless a byte other than whitespace follows it
    cases hrest : bytesFrom text.toUTF8 (skipSpaceFrom text.toUTF8 j) with
    | nil =>
      simp only [List.head?_nil, outcome_pure]
      constructor
      · intro h
        cases h
        exact ⟨j, rfl, hrest⟩
      · rintro ⟨j', h, -⟩
        cases h
        rfl
    | cons c more =>
      obtain ⟨e, he⟩ := outcome_failAhead (α := α) .trailingCharacters text.toUTF8
        (skipSpaceFrom text.toUTF8 j)
      simp only [List.head?_cons, he]
      constructor
      · intro h
        cases h
      · rintro ⟨j', h, hnil⟩
        cases h
        rw [hrest] at hnil
        cases hnil

theorem readAll_of_readsValue (h : ReadsValue x (textBytes text) a) : readAll x text = .ok a := by
  have hbytes : bytesFrom text.toUTF8 0 = textBytes text ++ [] := by
    rw [List.append_nil]
    rfl
  have hx := h text.toUTF8 0 [] [] (fun _ h => nomatch h) rfl (by rw [hbytes, List.nil_append])
  have hend := bytesFrom_append hbytes
  simp only [List.length_nil, Nat.add_zero, Nat.zero_add] at hx hend
  have hskip := @skipSpaceFrom_eq text.toUTF8 _ [] [] (fun _ h => nomatch h) rfl hend
  refine readAll_eq_ok_iff.mpr ⟨_, hx, ?_⟩
  rw [hskip, List.length_nil, Nat.add_zero, hend]

end Whole

end Reader

end Json

end RoundRobin
