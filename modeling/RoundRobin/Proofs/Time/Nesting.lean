import RoundRobin.Proofs.Time.Phase

/-!
# Step boundaries nest

`Lattice.floor t step` is the greatest multiple of a positive step at or
before `t` (`floor_bounds`, `le_of_floor`), so it is the only multiple of the
step less than one step below `t` (`floor_of_bounds`), and a boundary is its
own boundary.

For a multiple `s₂` of the step every boundary of `s₂` is also a boundary of
the step. So the coarse boundary at or before `t` lies a whole number of steps
below the fine one, and it is also the coarse boundary of the fine one
(`floor_floor`). This is what the seed count of an archive state relies on:
the archive boundary is reached from the step boundary as well as from `t`.

Main statement: `floor_rounds_down`.
-/

namespace RoundRobin

namespace Lattice

variable {t s r : Int}

theorem floor_eq_some_iff : floor t s = some r ↔ 0 < s ∧ r = s * (t / s) ∧ Signed64.min ≤ r := by
  rw [floor_eq]
  by_cases h : 0 < s ∧ Signed64.min ≤ s * (t / s)
  · rw [if_pos h, Option.some.injEq]
    constructor
    · rintro rfl
      exact ⟨h.1, rfl, h.2⟩
    · rintro ⟨-, rfl, -⟩
      rfl
  · rw [if_neg h]
    constructor
    · intro hn
      cases hn
    · rintro ⟨hs, rfl, hmin⟩
      exact absurd ⟨hs, hmin⟩ h

theorem floor_bounds (h : floor t s = some r) :
    0 < s ∧ r ≤ t ∧ t < r + s ∧ s ∣ r ∧ Signed64.min ≤ r := by
  obtain ⟨hs, rfl, hmin⟩ := floor_eq_some_iff.mp h
  exact ⟨hs, Int.mul_ediv_self_le (by omega), Int.lt_mul_ediv_self_add hs,
    Int.dvd_mul_right s (t / s), hmin⟩

theorem le_of_floor {m : Int} (h : floor t s = some r) (hm : s ∣ m) (hmt : m ≤ t) : m ≤ r := by
  obtain ⟨hs, -, htr, ⟨q, rfl⟩, -⟩ := floor_bounds h
  obtain ⟨k, rfl⟩ := hm
  -- both are multiples of `s`, and `s * k < s * (q + 1)` bounds the factor
  have hk : k < q + 1 := by
    refine Int.lt_of_mul_lt_mul_left (a := s) ?_ (by omega)
    rw [Int.mul_add, Int.mul_one]
    omega
  exact Int.mul_le_mul_of_nonneg_left (by omega) (by omega)

/-- A multiple of the step less than one step below `t` is its boundary,
when it is in range. -/
theorem floor_of_bounds (hs : 0 < s) (hdvd : s ∣ r) (hrt : r ≤ t) (htr : t < r + s)
    (hmin : Signed64.min ≤ r) : floor t s = some r := by
  obtain ⟨q, rfl⟩ := hdvd
  have hq : t / s = q := ((Int.ediv_emod_unique (r := t - s * q) hs).mpr ⟨by omega, by omega, by omega⟩).1
  rw [floor_eq_some_iff, hq]
  exact ⟨hs, rfl, hmin⟩

theorem floor_self (h : floor t s = some r) : floor r s = some r := by
  obtain ⟨hs, -, -, hdvd, hmin⟩ := floor_bounds h
  exact floor_of_bounds hs hdvd (Int.le_refl r) (by omega) hmin

/-- For a multiple `s₂` of the step, the boundary of `s₂` at or before `t`
lies a whole number of steps at or below the step's, and is the boundary of
`s₂` at or before the step's. -/
theorem floor_floor {s₂ r₂ : Int} (h : floor t s = some r) (hdvd : s ∣ s₂)
    (h₂ : floor t s₂ = some r₂) : r₂ ≤ r ∧ s ∣ r - r₂ ∧ floor r s₂ = some r₂ := by
  obtain ⟨-, hrt, -, hsr, -⟩ := floor_bounds h
  obtain ⟨hs₂, hr₂t, htr₂, hdvd₂, hmin₂⟩ := floor_bounds h₂
  have hsr₂ : s ∣ r₂ := Int.dvd_trans hdvd hdvd₂
  have hle : r₂ ≤ r := le_of_floor h hsr₂ hr₂t
  exact ⟨hle, Int.dvd_sub hsr hsr₂, floor_of_bounds hs₂ hdvd₂ hle (by omega) hmin₂⟩

/-- Rounding down to the step lattice. For a positive step `s` the boundary
is `s * (t / s)`, where `/` rounds toward negative infinity, as long as it is
not below the 64-bit range; there is none for a step that is not positive.
A boundary lies at or below `t` and less than one step below it, is a
multiple of the step and its own boundary; for every positive multiple `s₂`
of the step, the boundary of `s₂` lies a whole number of steps at or below it
and is also the boundary of `s₂` at or before it. -/
theorem floor_rounds_down (t s : Int) :
    floor t s = (if 0 < s ∧ Signed64.min ≤ s * (t / s) then some (s * (t / s)) else none) ∧
    ∀ r, floor t s = some r →
      r ≤ t ∧ t < r + s ∧ s ∣ r ∧ floor r s = some r ∧
      ∀ s₂ r₂, 0 < s₂ → s ∣ s₂ → floor t s₂ = some r₂ →
        r₂ ≤ r ∧ s ∣ r - r₂ ∧ floor r s₂ = some r₂ := by
  refine ⟨floor_eq t s, fun r h => ?_⟩
  obtain ⟨-, hrt, htr, hdvd, -⟩ := floor_bounds h
  exact ⟨hrt, htr, hdvd, floor_self h, fun s₂ r₂ _ hdvd₂ h₂ => floor_floor h hdvd₂ h₂⟩

example : floor (-1) 300 = some (-300) ∧ floor (-9223372036854775808) 300 = none := by decide

end Lattice

end RoundRobin
