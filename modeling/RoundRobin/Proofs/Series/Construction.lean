import RoundRobin.Series.Basic

/-!
# Which samples make a series

A descent is a position `k ≥ 1` where the time does not rise above the one
before it (`Series.Descent`). The out-of-order pairs that construction
collects are exactly the descents, in the order of their positions: there
are none exactly when the times increase (`violationsFrom_eq_nil_iff`), the
first one is the least descent (`violationsFrom_of_first`), and there are as
many as there are neighbouring pairs that do not increase
(`length_violationsFrom`).

So `Series.make` accepts exactly the samples of equal length, at least two,
whose times increase, and otherwise reports the first failing check: the
lengths, then the count, then the least descent with the number of all of
them (`make_reports_first_fault`). Built from pairs, the samples always come
in equal numbers, so a length mismatch cannot be reported; pairing two lists
keeps only as many samples as the shorter one has
(`ofPoints_drops_unmatched_time`).
-/

namespace RoundRobin

namespace Series

/-- The times do not increase from position `k - 1` to position `k`: `a` is
followed by `b ≤ a`. -/
def Descent (ts : List Int) (k : Nat) (a b : Int) : Prop :=
  0 < k ∧ ts[k - 1]? = some a ∧ ts[k]? = some b ∧ b ≤ a

def descents (ts : List Int) : Nat := (ts.zip ts.tail).countP fun p => decide (p.2 ≤ p.1)

-- ---------------------------------------------------------------------------
-- Descents of a list with two leading times
-- ---------------------------------------------------------------------------

section
variable {a b x y : Int} {rest : List Int}

theorem not_descent_zero {ts : List Int} : ¬ Descent ts 0 x y := fun h => Nat.lt_irrefl 0 h.1

theorem descent_one_iff : Descent (a :: b :: rest) 1 x y ↔ x = a ∧ y = b ∧ b ≤ a := by
  simp only [Descent, Nat.zero_lt_one, Nat.sub_self, List.getElem?_cons_zero,
    List.getElem?_cons_succ, Option.some.injEq, true_and]
  constructor
  · rintro ⟨rfl, rfl, h⟩
    exact ⟨rfl, rfl, h⟩
  · rintro ⟨rfl, rfl, h⟩
    exact ⟨rfl, rfl, h⟩

theorem descent_succ_succ_iff {k : Nat} :
    Descent (a :: b :: rest) (k + 2) x y ↔ Descent (b :: rest) (k + 1) x y := by
  simp only [Descent, Nat.zero_lt_succ, true_and, Nat.add_sub_cancel]
  rfl

theorem not_descent_of_length_lt {ts : List Int} (hlen : ts.length < 2) {k : Nat} :
    ¬ Descent ts k x y := by
  rintro ⟨hk, -, hy, -⟩
  have := (List.getElem?_eq_some_iff.mp hy).1
  omega

theorem descents_cons_cons :
    descents (a :: b :: rest) = (if b ≤ a then 1 else 0) + descents (b :: rest) := by
  simp only [descents, List.tail_cons, List.zip_cons_cons, List.countP_cons, decide_eq_true_eq]
  omega

end

-- ---------------------------------------------------------------------------
-- The recorded out-of-order pairs
-- ---------------------------------------------------------------------------

theorem length_violationsFrom (i : Nat) (ts : List Int) :
    (violationsFrom i ts).length = descents ts := by
  fun_induction violationsFrom i ts with
  | case1 i a b rest ih =>
    rw [List.length_append, ih, descents_cons_cons]
    split <;> rfl
  | case2 ts i hshort =>
    match ts with
    | [] => rfl
    | [_] => rfl
    | _ :: _ :: _ => exact (hshort _ _ _ rfl).elim

theorem violationsFrom_eq_nil_iff (i : Nat) (ts : List Int) :
    violationsFrom i ts = [] ↔ ∀ k a b, ¬ Descent ts k a b := by
  fun_induction violationsFrom i ts with
  | case1 i a b rest ih =>
    rw [List.append_eq_nil_iff, ih]
    constructor
    · rintro ⟨hfirst, hrest⟩ k x y hd
      match k with
      | 0 => exact not_descent_zero hd
      | 1 =>
        obtain ⟨-, -, hba⟩ := descent_one_iff.mp hd
        rw [if_pos hba] at hfirst
        cases hfirst
      | k + 2 => exact hrest (k + 1) x y (descent_succ_succ_iff.mp hd)
    · intro h
      refine ⟨?_, fun k x y hd => ?_⟩
      · rw [if_neg fun hba => h 1 a b (descent_one_iff.mpr ⟨rfl, rfl, hba⟩)]
      · match k with
        | 0 => exact not_descent_zero hd
        | k + 1 => exact h (k + 2) x y (descent_succ_succ_iff.mpr hd)
  | case2 ts i hshort =>
    have hlen : ts.length < 2 := by
      match ts with
      | [] => exact Nat.zero_lt_two
      | [_] => exact Nat.one_lt_two
      | _ :: _ :: _ => exact (hshort _ _ _ rfl).elim
    exact ⟨fun _ k x y => not_descent_of_length_lt hlen, fun _ => rfl⟩

/-- The first recorded pair is the least descent, its index shifted by the
start `i`. -/
theorem violationsFrom_of_first (i : Nat) (ts : List Int) {k : Nat} {a b : Int}
    (hd : Descent ts k a b) (hfirst : ∀ j < k, ∀ a' b', ¬ Descent ts j a' b') :
    ∃ rest, violationsFrom i ts = (i + k, a, b) :: rest := by
  fun_induction violationsFrom i ts generalizing k with
  | case1 i x y more ih =>
    by_cases hyx : y ≤ x
    · have hk : k = 1 := by
        rcases Nat.lt_or_ge 1 k with hlt | hle
        · exact absurd (descent_one_iff.mpr ⟨rfl, rfl, hyx⟩) (hfirst 1 hlt x y)
        · have := hd.1
          omega
      subst hk
      obtain ⟨rfl, rfl, -⟩ := descent_one_iff.mp hd
      exact ⟨_, by rw [if_pos hyx]; rfl⟩
    · match k, hd with
      | 0, hd => exact absurd hd not_descent_zero
      | 1, hd => exact absurd (descent_one_iff.mp hd).2.2 hyx
      | k + 2, hd =>
        have hfirst' : ∀ j < k + 1, ∀ a' b', ¬ Descent (y :: more) j a' b' := by
          intro j hj a' b' hd'
          match j with
          | 0 => exact not_descent_zero hd'
          | j + 1 => exact hfirst (j + 2) (by omega) a' b' (descent_succ_succ_iff.mpr hd')
        obtain ⟨rest, hrest⟩ := ih (descent_succ_succ_iff.mp hd) hfirst'
        refine ⟨rest, ?_⟩
        rw [if_neg hyx, List.nil_append, hrest]
        congr 2
        omega
  | case2 ts i hshort =>
    have hlen : ts.length < 2 := by
      match ts with
      | [] => exact Nat.zero_lt_two
      | [_] => exact Nat.one_lt_two
      | _ :: _ :: _ => exact (hshort _ _ _ rfl).elim
    exact absurd hd (not_descent_of_length_lt hlen)

-- ---------------------------------------------------------------------------
-- Construction
-- ---------------------------------------------------------------------------

section
variable {ts : List Int} {vs : List Binary64}

theorem make_of_length_ne (h : vs.length ≠ ts.length) :
    make ts vs = .error (.lengthMismatch ts.length vs.length) := by
  unfold make
  rw [dif_pos h]

theorem make_of_length_lt (h : vs.length = ts.length) (hlt : ts.length < 2) :
    make ts vs = .error (.tooFewPoints ts.length) := by
  unfold make
  rw [dif_neg (fun hne => hne h), dif_pos hlt]

theorem make_of_length_eq (h : vs.length = ts.length) (h2 : 2 ≤ ts.length) :
    (violationsFrom 0 ts = [] → ∃ s, make ts vs = .ok s) ∧
      ∀ i a b rest, violationsFrom 0 ts = (i, a, b) :: rest →
        make ts vs = .error (.notIncreasing i a b (descents ts)) := by
  unfold make
  rw [dif_neg (fun hne => hne h), dif_neg (Nat.not_lt.mpr h2)]
  split
  · next i a b rest hv =>
    refine ⟨fun hnil => absurd (hv.symm.trans hnil) (List.cons_ne_nil _ _), ?_⟩
    intro i' a' b' rest' hv'
    rw [hv] at hv'
    cases hv'
    rw [hv, ← length_violationsFrom 0 ts, hv]
  · next hv =>
    exact ⟨fun _ => ⟨_, rfl⟩, fun i a b rest hv' => absurd (hv'.symm.trans hv) (List.cons_ne_nil _ _)⟩

theorem make_ok_iff :
    (∃ s, make ts vs = .ok s) ↔ vs.length = ts.length ∧ 2 ≤ ts.length ∧ ∀ k a b, ¬ Descent ts k a b := by
  constructor
  · rintro ⟨s, hs⟩
    by_cases h : vs.length = ts.length
    · by_cases h2 : 2 ≤ ts.length
      · refine ⟨h, h2, (violationsFrom_eq_nil_iff 0 ts).mp ?_⟩
        -- a recorded pair would be reported instead of a series
        rcases hv : violationsFrom 0 ts with _ | ⟨⟨i, a, b⟩, rest⟩
        · rfl
        · rw [(make_of_length_eq h h2).2 i a b rest hv] at hs
          cases hs
      · rw [make_of_length_lt h (by omega)] at hs
        cases hs
    · rw [make_of_length_ne h] at hs
      cases hs
  · rintro ⟨h, h2, hinc⟩
    exact (make_of_length_eq h h2).1 ((violationsFrom_eq_nil_iff 0 ts).mpr hinc)

theorem make_of_first_descent (h : vs.length = ts.length) {k : Nat} {a b : Int}
    (hd : Descent ts k a b) (hfirst : ∀ j < k, ∀ a' b', ¬ Descent ts j a' b') :
    make ts vs = .error (.notIncreasing k a b (descents ts)) := by
  have h2 : 2 ≤ ts.length := by
    have := (List.getElem?_eq_some_iff.mp hd.2.2.1).1
    have := hd.1
    omega
  obtain ⟨rest, hv⟩ := violationsFrom_of_first 0 ts hd hfirst
  rw [Nat.zero_add] at hv
  exact (make_of_length_eq h h2).2 k a b rest hv

theorem make_ne_lengthMismatch (h : vs.length = ts.length) (t v : Nat) :
    make ts vs ≠ .error (.lengthMismatch t v) := by
  intro hm
  by_cases h2 : 2 ≤ ts.length
  · rcases hv : violationsFrom 0 ts with _ | ⟨⟨i, a, b⟩, rest⟩
    · obtain ⟨s, hs⟩ := (make_of_length_eq h h2).1 hv
      rw [hs] at hm
      cases hm
    · rw [(make_of_length_eq h h2).2 i a b rest hv] at hm
      cases hm
  · rw [make_of_length_lt h (by omega)] at hm
    cases hm

end

theorem ofPoints_ne_lengthMismatch (points : List (Int × Binary64)) (t v : Nat) :
    ofPoints points ≠ .error (.lengthMismatch t v) :=
  make_ne_lengthMismatch (by simp) t v

theorem ofPoints_zip (ts : List Int) (vs : List Binary64) :
    ofPoints (ts.zip vs) =
      make (ts.take (min ts.length vs.length)) (vs.take (min ts.length vs.length)) := by
  unfold ofPoints
  rw [List.zip_eq_zip_take_min, List.map_fst_zip (by simp), List.map_snd_zip (by simp)]

/-- Construction accepts exactly the samples of equal length, at least two,
whose times increase at every position, and otherwise reports the first
failing check: a length mismatch, else too few samples, else the least
descent with the two times there and the number of all pairs of
neighbouring times that do not increase. Built from pairs, the samples never
differ in number; paired from two lists, they are the first samples of each,
as many as the shorter list has. -/
theorem make_reports_first_fault (ts : List Int) (vs : List Binary64) :
    ((∃ s, make ts vs = .ok s) ↔
      vs.length = ts.length ∧ 2 ≤ ts.length ∧ ∀ k a b, ¬ Descent ts k a b) ∧
    (vs.length ≠ ts.length → make ts vs = .error (.lengthMismatch ts.length vs.length)) ∧
    (vs.length = ts.length → ts.length < 2 → make ts vs = .error (.tooFewPoints ts.length)) ∧
    (vs.length = ts.length → ∀ k a b, Descent ts k a b → (∀ j < k, ∀ a' b', ¬ Descent ts j a' b') →
      make ts vs = .error (.notIncreasing k a b (descents ts))) ∧
    (∀ (points : List (Int × Binary64)) (t v : Nat), ofPoints points ≠ .error (.lengthMismatch t v)) ∧
    ofPoints (ts.zip vs) =
      make (ts.take (min ts.length vs.length)) (vs.take (min ts.length vs.length)) :=
  ⟨make_ok_iff, make_of_length_ne, make_of_length_lt,
    fun h _ _ _ hd hfirst => make_of_first_descent h hd hfirst, ofPoints_ne_lengthMismatch,
    ofPoints_zip ts vs⟩

example : make [0, 5, 5, 3, 9] [.nan, .nan, .nan, .nan, .nan] = .error (.notIncreasing 2 5 5 2) := rfl

/-- Three times paired with two values: the third time has no value and is
dropped, so the points make a series although the two lists differ in
length. -/
theorem ofPoints_drops_unmatched_time :
    ([0, 1, 2] : List Int).length ≠ ([Binary64.nan, Binary64.nan] : List Binary64).length ∧
      ∃ s, ofPoints (([0, 1, 2] : List Int).zip [Binary64.nan, Binary64.nan]) = .ok s :=
  ⟨by decide, ⟨_, rfl⟩⟩

end Series

end RoundRobin
