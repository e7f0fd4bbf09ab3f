import RoundRobin.Time.Lattice

/-!
# The seed count in closed form

The step boundary at or before `t` is `step * (t / step)`, where `/` rounds
toward negative infinity for a positive step (`Lattice.floor_eq`). When the
step divides the archive step, the archive boundary is a step boundary too,
at or before the step boundary, and the steps between the two are the phase
of `t`'s step index within one archive step (`Lattice.sub_boundaries`).

So the seed count is refused exactly when a step is not positive, the step
does not divide the archive step, or the archive boundary lies below the
64-bit range; otherwise it is that phase, below the number of steps in an
archive step (`Lattice.unknownSteps_eq`). Both boundaries then lie between
the bottom of the range and `t`, and their difference is below one archive
step, so a computation in 64-bit integers neither overflows nor takes the
absolute value of a negative number (`Lattice.unknownSteps_closed_form`).
-/

namespace RoundRobin

namespace Lattice

theorem floor_eq (t step : Int) :
    floor t step =
      if 0 < step ∧ Signed64.min ≤ step * (t / step) then some (step * (t / step)) else none := by
  have hr : t - t % step = step * (t / step) := by
    rw [Int.emod_def]
    omega
  unfold floor
  simp only [hr]
  by_cases hs : step ≤ 0
  · rw [if_pos hs, if_neg (by omega)]
  · rw [if_neg hs]
    by_cases hm : step * (t / step) < Signed64.min
    · rw [if_pos hm, if_neg (by omega)]
    · rw [if_neg hm, if_pos ⟨by omega, by omega⟩]

/-- The steps from the archive boundary to the step boundary: the step index
of `t` modulo the number of steps in an archive step. -/
theorem sub_boundaries {step arcStep : Int} (t : Int) (hstep : 0 < step) (hdvd : step ∣ arcStep) :
    step * (t / step) - arcStep * (t / arcStep) = step * ((t / step) % (arcStep / step)) := by
  obtain ⟨q, rfl⟩ := hdvd
  have hq : step * q / step = q := Int.mul_ediv_cancel_left q (by omega)
  -- the archive index is the step index divided by the steps per archive step
  have hidx : t / (step * q) = t / step / q := (Int.ediv_ediv_of_nonneg (by omega)).symm
  rw [hq, hidx, Int.emod_def (t / step) q, Int.mul_sub, Int.mul_assoc]

theorem unknownSteps_eq (step arcStep t : Int) :
    unknownSteps step arcStep t =
      if 0 < step ∧ 0 < arcStep ∧ step ∣ arcStep ∧ Signed64.min ≤ arcStep * (t / arcStep) then
        .ok ((t / step) % (arcStep / step)).toNat
      else .error ⟨step, arcStep⟩ := by
  unfold unknownSteps
  by_cases hsteps : step ≤ 0 ∨ arcStep ≤ 0 ∨ arcStep % step ≠ 0
  · rw [if_pos hsteps, if_neg]
    rintro ⟨hs, ha, hdvd, -⟩
    have := Int.emod_eq_zero_of_dvd hdvd
    omega
  · rw [if_neg hsteps]
    have hs : 0 < step := by omega
    have ha : 0 < arcStep := by omega
    have hdvd : step ∣ arcStep := Int.dvd_of_emod_eq_zero (by omega)
    have hq : 0 < arcStep / step := Int.ediv_pos_of_pos_of_dvd ha (by omega) hdvd
    have hsub := sub_boundaries t hs hdvd
    have hphase : 0 ≤ (t / step) % (arcStep / step) := Int.emod_nonneg _ (by omega)
    have hle : arcStep * (t / arcStep) ≤ step * (t / step) := by
      have : 0 ≤ step * ((t / step) % (arcStep / step)) := Int.mul_nonneg (by omega) hphase
      omega
    by_cases hb : Signed64.min ≤ arcStep * (t / arcStep)
    · rw [floor_eq, floor_eq, if_pos ⟨hs, by omega⟩, if_pos ⟨ha, hb⟩, if_pos ⟨hs, ha, hdvd, hb⟩]
      show Except.ok ((step * (t / step) - arcStep * (t / arcStep)) / step).natAbs = _
      rw [hsub, Int.mul_ediv_cancel_left _ (by omega)]
      congr 1
      omega
    · rw [floor_eq t arcStep, if_neg (fun h => hb h.2), if_neg (fun h => hb h.2.2.2)]
      cases floor t step <;> rfl

example : unknownSteps 300 1800 (-1) = .ok 5 := rfl

theorem unknownSteps_lt_steps {step arcStep t : Int} {k : Nat}
    (h : unknownSteps step arcStep t = .ok k) : (k : Int) < arcStep / step := by
  rw [unknownSteps_eq] at h
  split at h
  · next hc =>
    obtain ⟨hs, ha, hdvd, -⟩ := hc
    cases h
    have hq : 0 < arcStep / step := Int.ediv_pos_of_pos_of_dvd ha (by omega) hdvd
    rw [Int.toNat_of_nonneg (Int.emod_nonneg _ (by omega))]
    exact Int.emod_lt_of_pos _ hq
  · cases h

theorem unknownSteps_lt {step arcStep t : Int} {k : Nat} (h : unknownSteps step arcStep t = .ok k) :
    (k : Int) < arcStep := by
  have hlt := unknownSteps_lt_steps h
  rw [unknownSteps_eq] at h
  split at h
  · next hc => exact Int.lt_of_lt_of_le hlt (Int.ediv_le_self _ (Int.le_of_lt hc.2.1))
  · cases h

/-- The seed count in closed form. It is refused, with both steps, exactly
when a step is not positive, the archive step is not a multiple of the step,
or the archive boundary lies below the 64-bit range; otherwise it is the
step index of `t` modulo the steps in an archive step, below that number.
Both boundaries then lie between the bottom of the range and `t`, their
difference is below one archive step, and the count is that difference in
steps, never negative. -/
theorem unknownSteps_closed_form (step arcStep t : Int) :
    unknownSteps step arcStep t =
        (if 0 < step ∧ 0 < arcStep ∧ step ∣ arcStep ∧ Signed64.min ≤ arcStep * (t / arcStep) then
          .ok ((t / step) % (arcStep / step)).toNat
        else .error ⟨step, arcStep⟩) ∧
      ∀ k : Nat, unknownSteps step arcStep t = .ok k →
        (k : Int) < arcStep / step ∧
        ∃ a b, floor t step = some a ∧ floor t arcStep = some b ∧
          Signed64.min ≤ b ∧ b ≤ a ∧ a ≤ t ∧ a - b < arcStep ∧ (k : Int) = (a - b) / step := by
  refine ⟨unknownSteps_eq step arcStep t, fun k hk => ⟨unknownSteps_lt_steps hk, ?_⟩⟩
  have hk' := hk
  rw [unknownSteps_eq] at hk'
  split at hk'
  · next hc =>
    obtain ⟨hs, ha, hdvd, hb⟩ := hc
    cases hk'
    have hq : 0 < arcStep / step := Int.ediv_pos_of_pos_of_dvd ha (by omega) hdvd
    have hphase : 0 ≤ (t / step) % (arcStep / step) := Int.emod_nonneg _ (by omega)
    have hlt : (t / step) % (arcStep / step) < arcStep / step := Int.emod_lt_of_pos _ hq
    have hsub := sub_boundaries t hs hdvd
    have harc : step * (arcStep / step) = arcStep := Int.mul_ediv_cancel' hdvd
    have hdiff : step * ((t / step) % (arcStep / step)) < arcStep := by
      calc step * ((t / step) % (arcStep / step))
          < step * (arcStep / step) := Int.mul_lt_mul_of_pos_left hlt hs
        _ = arcStep := harc
    have hle : 0 ≤ step * ((t / step) % (arcStep / step)) := Int.mul_nonneg (by omega) hphase
    have hbelow : step * (t / step) ≤ t := Int.mul_ediv_self_le (by omega)
    refine ⟨step * (t / step), arcStep * (t / arcStep), ?_, ?_, hb, by omega, hbelow, by omega, ?_⟩
    · rw [floor_eq, if_pos ⟨hs, by omega⟩]
    · rw [floor_eq, if_pos ⟨ha, hb⟩]
    · rw [hsub, Int.mul_ediv_cancel_left _ (by omega), Int.toNat_of_nonneg hphase]
  · cases hk'

end Lattice

end RoundRobin
