import RoundRobin.Proofs.Series.Landing

/-!
# The reference search on any lists

`Series.scan` takes its times and values as plain lists, which need not be
a series: they may be empty, of different lengths, out of order or with
repeated times. The search from the first sample still finds the first place
where the query lands, by index (`Hit.First`): a sample equal to the query,
or a segment holding it strictly inside, whichever comes first
(`locate_zero_eq_some_iff`), and nothing when it lands nowhere
(`locate_zero_eq_none_iff`).

So the reference answer is NaN on empty or mismatched lists and outside the
first and last times; otherwise it is the value of the first sample equal to
the query, or the method's answer on the first segment holding it, and every
index it reads lies within both lists (`scan_on_any_lists`).
-/

namespace RoundRobin

def Hit.index : Hit → Nat
  | .exact i => i
  | .segment i => i

/-- `h` is the first place where the query `t` lands: no place with a smaller
index does. -/
def Hit.First (times : List Int) (t : Int) (h : Hit) : Prop :=
  h.Lands times t ∧ ∀ h' : Hit, h'.Lands times t → h.index ≤ h'.index

namespace Series

variable {times : List Int} {t : Int}

theorem lands_at_index {h : Hit} {k : Nat} {a : Int} (ha : times[k]? = some a)
    (hl : h.Lands times t) (hk : h.index = k) :
    a = t ∨ ∃ b, times[k + 1]? = some b ∧ a < t ∧ t < b := by
  cases h with
  | exact i =>
    have hk : i = k := hk
    subst hk
    have hl : times[i]? = some t := hl
    rw [ha] at hl
    exact .inl (Option.some.inj hl)
  | segment i =>
    have hk : i = k := hk
    subst hk
    obtain ⟨a', b, ha', hb, hat, htb⟩ := hl
    rw [ha] at ha'
    cases ha'
    exact .inr ⟨b, hb, hat, htb⟩

theorem index_lt_length {h : Hit} (hl : h.Lands times t) : h.index < times.length := by
  cases h with
  | exact i => exact (List.getElem?_eq_some_iff.mp (show times[i]? = some t from hl)).1
  | segment i =>
    obtain ⟨a, b, ha, -, -, -⟩ := hl
    exact (List.getElem?_eq_some_iff.mp ha).1

theorem index_ne_of_skipped {h : Hit} {k : Nat} {a : Int} (ha : times[k]? = some a) (hne : a ≠ t)
    (hseg : ∀ b, times[k + 1]? = some b → ¬ (a < t ∧ t < b)) (hl : h.Lands times t) :
    h.index ≠ k := fun heq => by
  rcases lands_at_index ha hl heq with hat | ⟨b, hb, hat, htb⟩
  · exact hne hat
  · exact hseg b hb ⟨hat, htb⟩

theorem locateFrom_first {h : Hit} :
    ∀ (xs : List Int) (k : Nat), times.drop k = xs → locateFrom k xs t = some h →
      k ≤ h.index ∧ ∀ h' : Hit, h'.Lands times t → k ≤ h'.index → h.index ≤ h'.index := by
  intro xs
  induction xs with
  | nil =>
    intro k _ hl
    simp [locateFrom] at hl
  | cons a rest ih =>
    intro k hd hl
    obtain ⟨ha, hrest⟩ := getElem?_of_drop_eq_cons hd
    unfold locateFrom at hl
    by_cases hne : a = t
    · rw [if_pos hne] at hl
      cases hl
      exact ⟨Nat.le_refl k, fun _ _ hk => hk⟩
    · rw [if_neg hne] at hl
      cases rest with
      | nil => cases hl
      | cons b rest' =>
        simp only at hl
        by_cases hseg : a < t ∧ t < b
        · rw [if_pos hseg] at hl
          cases hl
          exact ⟨Nat.le_refl k, fun _ _ hk => hk⟩
        -- no place lands at `k` itself, so the first one at or after `k`
        -- is the first one at or after `k + 1`
        · rw [if_neg hseg] at hl
          have hb := (getElem?_of_drop_eq_cons hrest).1
          obtain ⟨hk, hfirst⟩ := ih (k + 1) hrest hl
          refine ⟨by omega, fun h' hl' hk' => hfirst h' hl' ?_⟩
          have hskip := index_ne_of_skipped ha hne
            (fun b' hb' => by rw [hb] at hb'; cases hb'; exact hseg) hl'
          omega

theorem locateFrom_eq_none :
    ∀ (xs : List Int) (k : Nat), times.drop k = xs → locateFrom k xs t = none →
      ∀ h' : Hit, h'.Lands times t → h'.index < k := by
  intro xs
  induction xs with
  | nil =>
    intro k hd _ h' hl'
    have hlen : times.length ≤ k := List.drop_eq_nil_iff.mp hd
    have hidx := index_lt_length hl'
    omega
  | cons a rest ih =>
    intro k hd hl h' hl'
    obtain ⟨ha, hrest⟩ := getElem?_of_drop_eq_cons hd
    unfold locateFrom at hl
    by_cases hne : a = t
    · rw [if_pos hne] at hl
      cases hl
    · rw [if_neg hne] at hl
      -- nothing lands at `k` itself, and by the search from `k + 1` nothing
      -- lands after it
      cases rest with
      | nil =>
        have hnext : times[k + 1]? = none := by rw [← List.head?_drop, hrest]; rfl
        have hlt := ih (k + 1) hrest rfl h' hl'
        have hskip := index_ne_of_skipped ha hne (fun b hb => by rw [hnext] at hb; cases hb) hl'
        omega
      | cons b rest' =>
        simp only at hl
        by_cases hseg : a < t ∧ t < b
        · rw [if_pos hseg] at hl
          cases hl
        · rw [if_neg hseg] at hl
          have hb := (getElem?_of_drop_eq_cons hrest).1
          have hlt := ih (k + 1) hrest hl h' hl'
          have hskip := index_ne_of_skipped ha hne
            (fun b' hb' => by rw [hb] at hb'; cases hb'; exact hseg) hl'
          omega

theorem eq_of_index_eq {h h' : Hit} (hl : h.Lands times t) (hl' : h'.Lands times t)
    (hidx : h.index = h'.index) : h = h' := by
  cases h with
  | exact i =>
    cases h' with
    | exact j => cases hidx; rfl
    | segment j =>
      obtain ⟨a, b, ha, -, hat, -⟩ := hl'
      cases hidx
      have hi : times[i]? = some t := hl
      rw [ha] at hi
      cases hi
      omega
  | segment i =>
    obtain ⟨a, b, ha, -, hat, -⟩ := hl
    cases h' with
    | exact j =>
      cases hidx
      have hi : times[i]? = some t := hl'
      rw [ha] at hi
      cases hi
      omega
    | segment j => cases hidx; rfl

/-- In any list of times, the search from the first sample reports exactly
the first place where the query lands. -/
theorem locate_zero_eq_some_iff {h : Hit} : locate times t 0 = some h ↔ h.First times t := by
  constructor
  · intro hl
    exact ⟨locateFrom_lands _ 0 rfl hl,
      fun h' hl' => (locateFrom_first _ 0 rfl hl).2 h' hl' (Nat.zero_le _)⟩
  · intro ⟨hl, hmin⟩
    cases hfound : locate times t 0 with
    | none =>
      have := locateFrom_eq_none _ 0 rfl hfound h hl
      omega
    | some h' =>
      have hl' : h'.Lands times t := locateFrom_lands _ 0 rfl hfound
      have hle := (locateFrom_first _ 0 rfl hfound).2 h hl (Nat.zero_le _)
      have hge := hmin h' hl'
      rw [eq_of_index_eq hl' hl (Nat.le_antisymm hle hge)]

/-- In any list of times, the search from the first sample reports nothing
exactly when the query lands nowhere. -/
theorem locate_zero_eq_none_iff : locate times t 0 = none ↔ ∀ h : Hit, ¬ h.Lands times t := by
  constructor
  · intro hn h hl
    have := locateFrom_eq_none _ 0 rfl hn h hl
    omega
  · intro hnone
    cases hfound : locate times t 0 with
    | none => rfl
    | some h => exact absurd (locateFrom_lands _ 0 rfl hfound) (hnone h)

-- ---------------------------------------------------------------------------
-- The reference answer
-- ---------------------------------------------------------------------------

variable {values : List Binary64} {m : Method}

theorem scan_of_ends {a b : Int} (ha : times.head? = some a) (hb : times.getLast? = some b) :
    scan times values m t =
      if times.length ≠ values.length ∨ t < a ∨ b < t then Binary64.nan
      else
        match locate times t 0 with
        | some (.exact i) => values.getD i Binary64.nan
        | some (.segment i) => resolve m times values i t
        | none => Binary64.nan := by
  rcases hloc : locate times t 0 with _ | (_ | _) <;> simp only [scan, ha, hb, hloc]

theorem getLast?_cons_exists (x : Int) (rest : List Int) : ∃ b, (x :: rest).getLast? = some b :=
  ⟨_, List.getLast?_eq_some_getLast (List.cons_ne_nil x rest)⟩

theorem scan_eq_nan_of_refused
    (h : times.length ≠ values.length ∨ (∃ a, times.head? = some a ∧ t < a) ∨
      (∃ b, times.getLast? = some b ∧ b < t)) :
    scan times values m t = Binary64.nan := by
  cases times with
  | nil => rfl
  | cons x rest =>
    obtain ⟨b, hb⟩ := getLast?_cons_exists x rest
    rw [scan_of_ends rfl hb, if_pos]
    rcases h with h | ⟨a, ha, hta⟩ | ⟨b', hb', hbt⟩
    · exact .inl h
    · cases ha
      exact .inr (.inl hta)
    · rw [hb] at hb'
      cases hb'
      exact .inr (.inr hbt)

theorem scan_eq_locate (hlen : times.length = values.length)
    (hfirst : ∀ a, times.head? = some a → a ≤ t) (hlast : ∀ b, times.getLast? = some b → t ≤ b) :
    scan times values m t =
      match locate times t 0 with
      | some (.exact i) => values.getD i Binary64.nan
      | some (.segment i) => resolve m times values i t
      | none => Binary64.nan := by
  cases times with
  | nil => rfl
  | cons x rest =>
    obtain ⟨b, hb⟩ := getLast?_cons_exists x rest
    have hxt := hfirst x rfl
    have htb := hlast b hb
    rw [scan_of_ends rfl hb, if_neg (by omega)]

/-- The reference answer on any lists of times and values. It is NaN when
there are no times, when the lists differ in length, and for a query before
the first time or after the last. Otherwise it is the value of the first
sample whose time is the query, or the method's answer on the first segment
that holds the query strictly inside, whichever comes first, and NaN when
there is neither. The indices it reads lie within both lists. -/
theorem scan_on_any_lists (times : List Int) (values : List Binary64) (m : Method) (t : Int) :
    (times = [] ∨ times.length ≠ values.length ∨ (∃ a, times.head? = some a ∧ t < a) ∨
        (∃ b, times.getLast? = some b ∧ b < t) →
      scan times values m t = Binary64.nan) ∧
    (times.length = values.length → (∀ a, times.head? = some a → a ≤ t) →
        (∀ b, times.getLast? = some b → t ≤ b) →
      (∀ i, (Hit.exact i).First times t → values[i]? = some (scan times values m t)) ∧
      (∀ i, (Hit.segment i).First times t →
        i + 1 < times.length ∧ i + 1 < values.length ∧
        scan times values m t = resolve m times values i t) ∧
      ((∀ h : Hit, ¬ h.Lands times t) → scan times values m t = Binary64.nan)) := by
  refine ⟨fun h => ?_, fun hlen hfirst hlast => ⟨fun i hi => ?_, fun i hi => ?_, fun hnone => ?_⟩⟩
  · rcases h with rfl | h
    · rfl
    · exact scan_eq_nan_of_refused h
  · have hidx : i < values.length := hlen ▸ index_lt_length hi.1
    have hv : scan times values m t = values.getD i Binary64.nan := by
      rw [scan_eq_locate hlen hfirst hlast, locate_zero_eq_some_iff.mpr hi]
    rw [hv, List.getD_eq_getElem?_getD, List.getElem?_eq_getElem hidx, Option.getD_some]
  · obtain ⟨a, b, -, hb, -, -⟩ := hi.1
    have hidx : i + 1 < times.length := (List.getElem?_eq_some_iff.mp hb).1
    refine ⟨hidx, hlen ▸ hidx, ?_⟩
    rw [scan_eq_locate hlen hfirst hlast, locate_zero_eq_some_iff.mpr hi]
  · rw [scan_eq_locate hlen hfirst hlast, locate_zero_eq_none_iff.mpr hnone]

example : scan [0, 10, 0, 20] [⟨1⟩, ⟨2⟩, ⟨3⟩, ⟨4⟩] .left 5 = ⟨1⟩ := by decide

end Series

end RoundRobin
