import RoundRobin.Proofs.Series.Landing

/-!
# The cursor is only a hint

`Series.valueAt` starts its search at the cursor, the segment where the last
query between two samples landed, and from the first sample when the query
lies before the cursor's sample. On increasing times no hit lies before a
sample at or before the query, so the search finds the same place as the
search from the first sample (`valueAt_matches_scan`).

The cursor stays on a segment: a fresh series starts on the first one, and a
query moves it only to the segment it landed in. So after any calls, in any
order, every query answers as `Series.scan` does
(`valueAt_matches_scan_after_calls`).
-/

namespace RoundRobin

namespace Series

theorem locate_from_cursor (s : Series) (hc : s.cursor < s.times.length) {t : Int} {h : Hit}
    (hl : h.Lands s.times t) :
    locate s.times t (if t < s.times.getD s.cursor 0 then 0 else s.cursor) = some h := by
  split
  · exact s.locate_zero_of_lands hl
  · have hcur : s.times[s.cursor]? = some (s.times.getD s.cursor 0) := by
      simp [List.getD_eq_getElem?_getD, hc]
    exact s.locate_of_lands hcur (by omega) hl

theorem valueAt_of_outside (s : Series) {t : Int} (hout : t < s.timeRange.1 ∨ s.timeRange.2 < t) :
    s.valueAt t = (Binary64.nan, s) := by
  simp only [valueAt, if_pos hout]

theorem valueAt_of_lands (s : Series) (hc : s.cursor < s.times.length) {t : Int} {h : Hit}
    (hl : h.Lands s.times t) :
    s.valueAt t = match h with
      | .exact i => (s.values.getD i Binary64.nan, s)
      | .segment i => (resolve s.method s.times s.values i t, { s with cursor := i }) := by
  have hin := s.timeRange_le_of_lands hl
  simp only [valueAt, if_neg (show ¬(t < s.timeRange.1 ∨ s.timeRange.2 < t) by omega),
    s.locate_from_cursor hc hl]
  cases h <;> rfl

theorem valueAt_times (s : Series) (t : Int) : (s.valueAt t).2.times = s.times := by
  simp only [valueAt]
  repeat' split
  all_goals rfl

/-- Where a query through the cursor leaves the series: unchanged outside
the range and on a sample time, and with the cursor on the segment holding
the query otherwise. -/
theorem valueAt_cases (s : Series) (hc : s.cursor + 2 ≤ s.times.length) (t : Int) :
    ((t < s.timeRange.1 ∨ s.timeRange.2 < t) ∧ s.valueAt t = (Binary64.nan, s)) ∨
    (∃ i, (Hit.exact i).Lands s.times t ∧ s.valueAt t = (s.values.getD i Binary64.nan, s)) ∨
    (∃ j, (Hit.segment j).Lands s.times t ∧
      s.valueAt t = (resolve s.method s.times s.values j t, { s with cursor := j })) := by
  by_cases hout : t < s.timeRange.1 ∨ s.timeRange.2 < t
  · exact .inl ⟨hout, s.valueAt_of_outside hout⟩
  · obtain ⟨h, hl⟩ := s.exists_lands (t := t) (by omega) (by omega)
    have hv := s.valueAt_of_lands (by omega) hl
    cases h with
    | exact i => exact .inr (.inl ⟨i, hl, hv⟩)
    | segment j => exact .inr (.inr ⟨j, hl, hv⟩)

theorem valueAt_fst (s : Series) (hc : s.cursor + 2 ≤ s.times.length) (t : Int) :
    (s.valueAt t).1 = s.valueAtUncached t := by
  rcases s.valueAt_cases hc t with ⟨hout, hv⟩ | ⟨i, hl, hv⟩ | ⟨j, hl, hv⟩
  · rw [hv, valueAtUncached, s.scan_of_outside _ hout]
  · rw [hv, valueAtUncached, s.scan_of_exact _ hl]
  · rw [hv, valueAtUncached, s.scan_of_segment _ hl]

theorem valueAt_cursor (s : Series) (hc : s.cursor + 2 ≤ s.times.length) (t : Int) :
    (s.valueAt t).2.cursor + 2 ≤ s.times.length := by
  rcases s.valueAt_cases hc t with ⟨-, hv⟩ | ⟨i, -, hv⟩ | ⟨j, ⟨a, b, -, hb, -⟩, hv⟩
  · rw [hv]
    exact hc
  · rw [hv]
    exact hc
  · rw [hv]
    have hj : j + 1 < s.times.length := (List.getElem?_eq_some_iff.mp hb).1
    show j + 2 ≤ s.times.length
    omega

/-- A query made with the cursor on any segment answers as the search from
the first sample does. It leaves the cursor on a segment: unchanged when the
query falls outside the range or on a sample, and on the segment holding the
query otherwise. -/
theorem valueAt_matches_scan (s : Series) (hc : s.cursor + 2 ≤ s.times.length) (t : Int) :
    (s.valueAt t).1 = s.valueAtUncached t ∧
    (s.valueAt t).2.cursor + 2 ≤ s.times.length ∧
    (t < s.timeRange.1 ∨ s.timeRange.2 < t ∨ t ∈ s.times → (s.valueAt t).2 = s) ∧
    (∀ (i : Nat) (a b : Int), s.times[i]? = some a → s.times[i + 1]? = some b → a < t → t < b →
      (s.valueAt t).2 = { s with cursor := i }) := by
  refine ⟨s.valueAt_fst hc t, s.valueAt_cursor hc t, fun hpos => ?_,
    fun i a b ha hb hat htb => ?_⟩
  · rcases s.valueAt_cases hc t with ⟨-, hv⟩ | ⟨i, -, hv⟩ | ⟨j, hl, -⟩
    · rw [hv]
    · rw [hv]
    -- the query lies strictly inside a segment, so it is no sample time and
    -- lies within the range
    · have hin := s.timeRange_le_of_lands hl
      rcases hpos with hlt | hlt | hmem
      · omega
      · omega
      · obtain ⟨k, hk⟩ := List.mem_iff_getElem?.mp hmem
        cases lands_unique s.pairwise hl (show (Hit.exact k).Lands s.times t from hk)
  · have hl : (Hit.segment i).Lands s.times t := ⟨a, b, ha, hb, hat, htb⟩
    rcases s.valueAt_cases hc t with ⟨hout, -⟩ | ⟨k, hk, -⟩ | ⟨j, hj, hv⟩
    · have := s.timeRange_le_of_lands hl
      omega
    · cases lands_unique s.pairwise hl hk
    · cases lands_unique s.pairwise hl hj
      rw [hv]

/-- A backward query from the last segment restarts the search and still
answers as the reference does. -/
theorem valueAt_matches_scan_backward :
    let s : Series := ⟨[0, 10, 20], [⟨1⟩, Binary64.nan, ⟨3⟩], .right, 1, rfl, by decide, rfl⟩
    s.cursor + 2 ≤ s.times.length ∧
      ((s.valueAt 5).1 = s.valueAtUncached 5 ∧
      (s.valueAt 5).2.cursor + 2 ≤ s.times.length ∧
      (5 < s.timeRange.1 ∨ s.timeRange.2 < 5 ∨ 5 ∈ s.times → (s.valueAt 5).2 = s) ∧
      (∀ (i : Nat) (a b : Int), s.times[i]? = some a → s.times[i + 1]? = some b → a < 5 →
        5 < b → (s.valueAt 5).2 = { s with cursor := i })) :=
  ⟨by decide, valueAt_matches_scan _ (by decide) 5⟩

-- ---------------------------------------------------------------------------
-- Runs of calls
-- ---------------------------------------------------------------------------

theorem make_cursor {times : List Int} {values : List Binary64} {s : Series}
    (hs : make times values = .ok s) : s.cursor = 0 := by
  unfold make at hs
  split at hs
  · cases hs
  · split at hs
    · cases hs
    · split at hs
      · cases hs
      · cases hs
        rfl

/-- What a client can do to a series: query it through the cursor or from
the first sample, or change its method. A copy of a series is the series
itself. -/
inductive Call where
  | query (t : Int)
  | queryUncached (t : Int)
  | setMethod (m : Method)

def Call.apply (s : Series) : Call → Series
  | .query t => (s.valueAt t).2
  | .queryUncached _ => s
  | .setMethod m => s.withMethod m

theorem Call.apply_cursor (s : Series) (hc : s.cursor + 2 ≤ s.times.length) (c : Call) :
    (c.apply s).times = s.times ∧ (c.apply s).cursor + 2 ≤ s.times.length := by
  cases c with
  | query t => exact ⟨s.valueAt_times t, s.valueAt_cursor hc t⟩
  | queryUncached t => exact ⟨rfl, hc⟩
  | setMethod m => exact ⟨rfl, hc⟩

theorem foldl_apply_cursor (s : Series) (hc : s.cursor + 2 ≤ s.times.length)
    (calls : List Call) :
    (calls.foldl Call.apply s).cursor + 2 ≤ (calls.foldl Call.apply s).times.length := by
  induction calls generalizing s with
  | nil => exact hc
  | cons c rest ih =>
    obtain ⟨htimes, hc'⟩ := Call.apply_cursor s hc c
    exact ih (c.apply s) (htimes ▸ hc')

/-- A series made from samples answers every query, after any calls in any
order, as the search from the first sample does. -/
theorem valueAt_matches_scan_after_calls {times : List Int} {values : List Binary64}
    {s : Series} (hs : make times values = .ok s) (calls : List Call) (t : Int) :
    ((calls.foldl Call.apply s).valueAt t).1 = (calls.foldl Call.apply s).valueAtUncached t := by
  have hc : s.cursor + 2 ≤ s.times.length := by
    have := s.two_le
    rw [make_cursor hs]
    omega
  exact valueAt_fst _ (foldl_apply_cursor s hc calls) t

example :
    let s : Series := ⟨[0, 10, 20, 30, 40], List.replicate 5 Binary64.nan, .linear, 0, rfl,
      by decide, rfl⟩
    ((s.valueAt 35).2.cursor, (((s.valueAt 35).2.valueAt 5).2).cursor,
      ((((s.valueAt 35).2.valueAt 5).2.valueAt 20).2).cursor) = (3, 0, 0) := by
  decide

end Series

end RoundRobin
