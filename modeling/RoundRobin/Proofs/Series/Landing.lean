import RoundRobin.Series.Query

/-!
# Where a query lands

A query time lands on a sample, or strictly inside the segment between two
neighbouring samples (`Hit.Lands`). The search `locateFrom` is sound on any
list of times; on increasing times it is also complete from every sample at or
before the query, and the place it finds is the only one. So the search from
the first sample is the reference for every query.

`scan_by_position` is the resulting law of `Series.scan`: NaN outside the
time range, the sample's own value on a sample time whatever the method, and
the method's answer from the two neighbouring samples strictly between them.
-/

namespace RoundRobin

/-- Where a query time lands among sample times: on sample `i`, or strictly
inside the segment from sample `i` to the next. -/
def Hit.Lands (times : List Int) (t : Int) : Hit → Prop
  | .exact i => times[i]? = some t
  | .segment i => ∃ a b, times[i]? = some a ∧ times[i + 1]? = some b ∧ a < t ∧ t < b

theorem isIncreasing_iff_pairwise {times : List Int} :
    isIncreasing times = true ↔ times.Pairwise (· < ·) := by
  fun_induction isIncreasing times with
  | case1 a b rest ih =>
    rw [Bool.and_eq_true, ih, decide_eq_true_eq, List.pairwise_cons (l := b :: rest)]
    constructor
    · rintro ⟨hab, hrest⟩
      refine ⟨fun c hc => ?_, hrest⟩
      rcases List.mem_cons.mp hc with rfl | hc
      · exact hab
      · exact Int.lt_trans hab (List.rel_of_pairwise_cons hrest hc)
    · rintro ⟨hlt, hrest⟩
      exact ⟨hlt b List.mem_cons_self, hrest⟩
  | case2 l h =>
    match l with
    | [] => simp
    | [_] => simp
    | _ :: _ :: _ => exact absurd rfl (h _ _ _)

theorem lt_iff_of_pairwise {times : List Int} {i j : Nat} {a b : Int}
    (hs : times.Pairwise (· < ·)) (hi : times[i]? = some a) (hj : times[j]? = some b) :
    a < b ↔ i < j := by
  obtain ⟨hi', rfl⟩ := List.getElem?_eq_some_iff.mp hi
  obtain ⟨hj', rfl⟩ := List.getElem?_eq_some_iff.mp hj
  have hmono := List.pairwise_iff_getElem.mp hs
  rcases Nat.lt_trichotomy i j with h | rfl | h
  · have := hmono i j hi' hj' h
    omega
  · omega
  · have := hmono j i hj' hi' h
    omega

namespace Series

-- ---------------------------------------------------------------------------
-- The search
-- ---------------------------------------------------------------------------

theorem getElem?_of_drop_eq_cons {times : List Int} {k : Nat} {a : Int} {rest : List Int}
    (hd : times.drop k = a :: rest) : times[k]? = some a ∧ times.drop (k + 1) = rest :=
  ⟨by rw [← List.head?_drop, hd]; rfl, by rw [← List.tail_drop, hd]; rfl⟩

theorem locateFrom_lands {times : List Int} {t : Int} {h : Hit} :
    ∀ (xs : List Int) (k : Nat), times.drop k = xs → locateFrom k xs t = some h →
      h.Lands times t := by
  intro xs
  induction xs with
  | nil =>
    intro k _ hl
    simp [locateFrom] at hl
  | cons a rest ih =>
    intro k hd hl
    obtain ⟨ha, hrest⟩ := getElem?_of_drop_eq_cons hd
    unfold locateFrom at hl
    split at hl
    · cases hl
      simpa [Hit.Lands, ← ‹a = t›] using ha
    · match rest, hrest, hl with
      | [], _, hl => cases hl
      | b :: rest', hrest, hl =>
        simp only at hl
        split at hl
        · cases hl
          have hb := (getElem?_of_drop_eq_cons hrest).1
          exact ⟨a, b, ha, hb, ‹a < t ∧ t < b›.1, ‹a < t ∧ t < b›.2⟩
        · exact ih (k + 1) hrest hl

theorem locateFrom_isSome {t : Int} :
    ∀ {xs : List Int} {k : Nat} {a b : Int}, xs.Pairwise (· < ·) → xs.head? = some a →
      a ≤ t → xs.getLast? = some b → t ≤ b → (locateFrom k xs t).isSome
  | [], _, _, _, _, ha, _, _, _ => by cases ha
  | a' :: rest, k, a, b, hs, ha, hat, hb, htb => by
    cases ha
    unfold locateFrom
    split
    · rfl
    · have hlt : a' < t := by omega
      match rest, hs, hb with
      | [], _, hb =>
        simp only [List.getLast?_singleton, Option.some.injEq] at hb
        omega
      | c :: rest', hs, hb =>
        simp only
        split
        · rfl
        -- past the first segment, the next sample is at or before the query
        · have hct : c ≤ t := by omega
          exact locateFrom_isSome (List.pairwise_cons.mp hs).2 rfl hct
            (by simpa using hb) htb

theorem lands_unique {times : List Int} {t : Int} {h h' : Hit} (hs : times.Pairwise (· < ·))
    (hl : h.Lands times t) (hl' : h'.Lands times t) : h = h' := by
  cases h with
  | exact i =>
    cases h' with
    | exact j =>
      have := lt_iff_of_pairwise hs hl hl'
      have := lt_iff_of_pairwise hs hl' hl
      simp only [Hit.exact.injEq]
      omega
    | segment j =>
      obtain ⟨a, b, ha, hb, hat, htb⟩ := hl'
      have := (lt_iff_of_pairwise hs ha hl).mp hat
      have := (lt_iff_of_pairwise hs hl hb).mp htb
      omega
  | segment i =>
    obtain ⟨a, b, ha, hb, hat, htb⟩ := hl
    cases h' with
    | exact j =>
      have := (lt_iff_of_pairwise hs ha hl').mp hat
      have := (lt_iff_of_pairwise hs hl' hb).mp htb
      omega
    | segment j =>
      obtain ⟨c, d, hc, hd, hct, htd⟩ := hl'
      -- each segment starts before the other one ends
      have := (lt_iff_of_pairwise hs ha hd).mp (Int.lt_trans hat htd)
      have := (lt_iff_of_pairwise hs hc hb).mp (Int.lt_trans hct htb)
      simp only [Hit.segment.injEq]
      omega

theorem locate_eq_of_lands {times : List Int} {t a b : Int} {k : Nat} {h : Hit}
    (hs : times.Pairwise (· < ·)) (ha : times[k]? = some a) (hat : a ≤ t)
    (hb : times.getLast? = some b) (htb : t ≤ b) (hl : h.Lands times t) :
    locate times t k = some h := by
  have hk : k < times.length := (List.getElem?_eq_some_iff.mp ha).1
  have hfound : (locate times t k).isSome := by
    refine locateFrom_isSome hs.drop (by rw [List.head?_drop, ha]) hat ?_ htb
    rw [List.getLast?_drop, if_neg (by omega), hb]
  obtain ⟨h', hh'⟩ := Option.isSome_iff_exists.mp hfound
  rw [hh', lands_unique hs (locateFrom_lands _ k rfl hh') hl]

-- ---------------------------------------------------------------------------
-- Series
-- ---------------------------------------------------------------------------

theorem pairwise (s : Series) : s.times.Pairwise (· < ·) :=
  isIncreasing_iff_pairwise.mp s.increasing

theorem head?_times (s : Series) : s.times.head? = some s.timeRange.1 := by
  obtain ⟨a, rest, hs⟩ : ∃ a rest, s.times = a :: rest := by
    cases h : s.times with
    | nil =>
      have := s.two_le
      simp [h] at this
    | cons a rest => exact ⟨a, rest, rfl⟩
  simp [timeRange, hs]

theorem getLast?_times (s : Series) : s.times.getLast? = some s.timeRange.2 := by
  cases h : s.times.getLast? with
  | none =>
    have := s.two_le
    simp_all [List.getLast?_eq_none_iff]
  | some b => simp [timeRange, List.getLastD_eq_getLast?, h]

theorem timeRange_le_of_getElem? (s : Series) {i : Nat} {x : Int} (hx : s.times[i]? = some x) :
    s.timeRange.1 ≤ x ∧ x ≤ s.timeRange.2 := by
  have hi : i < s.times.length := (List.getElem?_eq_some_iff.mp hx).1
  have hfirst : s.times[0]? = some s.timeRange.1 := by rw [← List.head?_eq_getElem?, head?_times]
  have hlast : s.times[s.times.length - 1]? = some s.timeRange.2 := by
    rw [← List.getLast?_eq_getElem?, getLast?_times]
  have h1 := lt_iff_of_pairwise s.pairwise hx hfirst
  have h2 := lt_iff_of_pairwise s.pairwise hlast hx
  omega

theorem timeRange_le_of_lands (s : Series) {t : Int} {h : Hit} (hl : h.Lands s.times t) :
    s.timeRange.1 ≤ t ∧ t ≤ s.timeRange.2 := by
  cases h with
  | exact i => exact s.timeRange_le_of_getElem? hl
  | segment i =>
    obtain ⟨a, b, ha, hb, hat, htb⟩ := hl
    have := s.timeRange_le_of_getElem? ha
    have := s.timeRange_le_of_getElem? hb
    omega

theorem exists_lands (s : Series) {t : Int} (h1 : s.timeRange.1 ≤ t) (h2 : t ≤ s.timeRange.2) :
    ∃ h : Hit, h.Lands s.times t := by
  have hfound : (locate s.times t 0).isSome :=
    locateFrom_isSome s.pairwise (by simpa using s.head?_times) h1 s.getLast?_times h2
  obtain ⟨h, hh⟩ := Option.isSome_iff_exists.mp hfound
  exact ⟨h, locateFrom_lands _ 0 rfl hh⟩

theorem locate_of_lands (s : Series) {t a : Int} {k : Nat} {h : Hit} (ha : s.times[k]? = some a)
    (hat : a ≤ t) (hl : h.Lands s.times t) : locate s.times t k = some h :=
  locate_eq_of_lands s.pairwise ha hat s.getLast?_times (s.timeRange_le_of_lands hl).2 hl

theorem locate_zero_of_lands (s : Series) {t : Int} {h : Hit} (hl : h.Lands s.times t) :
    locate s.times t 0 = some h :=
  s.locate_of_lands (by rw [← List.head?_eq_getElem?, head?_times])
    (s.timeRange_le_of_lands hl).1 hl

theorem getElem?_values (s : Series) {i : Nat} {x : Int} (hx : s.times[i]? = some x) :
    ∃ v, s.values[i]? = some v ∧ s.values.getD i Binary64.nan = v := by
  have hi : i < s.values.length := s.length_eq ▸ (List.getElem?_eq_some_iff.mp hx).1
  exact ⟨s.values[i], List.getElem?_eq_getElem hi, by simp [List.getD_eq_getElem?_getD, hi]⟩

-- ---------------------------------------------------------------------------
-- The reference answer
-- ---------------------------------------------------------------------------

theorem scan_eq (s : Series) (m : Method) (t : Int) :
    scan s.times s.values m t =
      if t < s.timeRange.1 ∨ s.timeRange.2 < t then Binary64.nan
      else
        match locate s.times t 0 with
        | some (.exact i) => s.values.getD i Binary64.nan
        | some (.segment i) => resolve m s.times s.values i t
        | none => Binary64.nan := by
  rw [scan, head?_times, getLast?_times]
  exact ite_cond_congr (by simp [s.length_eq])

theorem scan_of_outside (s : Series) (m : Method) {t : Int}
    (hout : t < s.timeRange.1 ∨ s.timeRange.2 < t) : scan s.times s.values m t = Binary64.nan := by
  rw [scan_eq, if_pos hout]

theorem scan_of_exact (s : Series) (m : Method) {t : Int} {i : Nat} (hl : s.times[i]? = some t) :
    scan s.times s.values m t = s.values.getD i Binary64.nan := by
  have hin := s.timeRange_le_of_lands (h := .exact i) hl
  rw [scan_eq, if_neg (by omega), s.locate_zero_of_lands (h := .exact i) hl]

theorem scan_of_segment (s : Series) (m : Method) {t : Int} {i : Nat}
    (hl : (Hit.segment i).Lands s.times t) :
    scan s.times s.values m t = resolve m s.times s.values i t := by
  have hin := s.timeRange_le_of_lands hl
  rw [scan_eq, if_neg (by omega), s.locate_zero_of_lands hl]

/-- The reference answer of a query: NaN outside the time range; on a sample
time, that sample's value whatever the method; strictly between two samples,
the method's answer from the two of them. Inside the range the search from the
first sample always finds where the query lands, so its last fallback is never
taken. -/
theorem scan_by_position (s : Series) (m : Method) (t : Int) :
    ((t < s.timeRange.1 ∨ s.timeRange.2 < t) → scan s.times s.values m t = Binary64.nan) ∧
    (∀ i : Nat, s.times[i]? = some t → s.values[i]? = some (scan s.times s.values m t)) ∧
    (∀ (i : Nat) (a b : Int), s.times[i]? = some a → s.times[i + 1]? = some b → a < t → t < b →
      s.values[i]? = some (scan s.times s.values .left t) ∧
      s.values[i + 1]? = some (scan s.times s.values .right t) ∧
      (∀ c, scan s.times s.values (.unsupported c) t = Binary64.nan) ∧
      ∃ v w, s.values[i]? = some v ∧ s.values[i + 1]? = some w ∧
        scan s.times s.values .linear t = linearValue a b v w t) ∧
    (s.timeRange.1 ≤ t → t ≤ s.timeRange.2 → (locate s.times t 0).isSome) := by
  refine ⟨s.scan_of_outside m, fun i hi => ?_, fun i a b ha hb hat htb => ?_,
    fun h1 h2 => ?_⟩
  · obtain ⟨v, hv, hd⟩ := s.getElem?_values hi
    rw [s.scan_of_exact m hi, hd, hv]
  · have hl : (Hit.segment i).Lands s.times t := ⟨a, b, ha, hb, hat, htb⟩
    obtain ⟨v, hv, hdv⟩ := s.getElem?_values ha
    obtain ⟨w, hw, hdw⟩ := s.getElem?_values hb
    have hta : s.times.getD i 0 = a := by simp [List.getD_eq_getElem?_getD, ha]
    have htb' : s.times.getD (i + 1) 0 = b := by simp [List.getD_eq_getElem?_getD, hb]
    refine ⟨?_, ?_, fun c => ?_, v, w, hv, hw, ?_⟩
    · rw [s.scan_of_segment _ hl, resolve, hdv, hv]
    · rw [s.scan_of_segment _ hl, resolve, hdw, hw]
    · rw [s.scan_of_segment _ hl, resolve]
    · rw [s.scan_of_segment _ hl, resolve, hta, htb', hdv, hdw]
  · obtain ⟨h, hl⟩ := s.exists_lands h1 h2
    rw [s.locate_zero_of_lands hl]
    rfl

end Series

end RoundRobin
