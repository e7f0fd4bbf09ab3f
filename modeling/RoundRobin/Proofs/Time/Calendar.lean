import RoundRobin.Time.Civil
import Mathlib.Data.Rat.Floor

/-!
# Whole seconds and the calendar

A calendar value, in whatever zone it is shown, and a system clock reading
are both read through their instant in milliseconds since the epoch, so the
zone never reaches `secondOfMillis`. The instant is read as the second whose
window, from half a second before it to just under half a second after,
holds it (`secondOfMillis_eq_iff`). That is `⌊(m + 500) / 1000⌋` taken over
the rationals (`secondOfMillis_eq_floor`), before the epoch as after it, and
a later instant never reads as an earlier second (`secondOfMillis_mono`).

A day count is split into eras of 400 years, 146097 days each, counted from
1 March so that a leap day ends its year. Removing the leap days before a
day of the era leaves whole years of 365 days, so the year of the era and
the day of that year come out in range (`yearOfEra_bounds`), and the date
turns back into the same day count (`daysOfDate_dateOfDays`). Hence every
second of the calendar range has a date and time, and reading that date and
time back to the nearest second gives the second again.

Main statement: `calendar_second_round_trip`.
-/

namespace RoundRobin

namespace Civil

/-! ## Rounding to the second -/

/-- The second of an instant is the one whose window `[1000 s - 500,
1000 s + 500)` holds it: the nearest second, a half going up. -/
theorem secondOfMillis_eq_iff {m s : Int} :
    secondOfMillis m = s ↔ 1000 * s - 500 ≤ m ∧ m < 1000 * s + 500 := by
  unfold secondOfMillis
  omega

theorem secondOfMillis_window (m : Int) :
    1000 * secondOfMillis m - 500 ≤ m ∧ m < 1000 * secondOfMillis m + 500 :=
  secondOfMillis_eq_iff.mp rfl

example : secondOfMillis (-500) = 0 ∧ secondOfMillis (-501) = -1 := by decide

theorem secondOfMillis_eq_floor (m : Int) : secondOfMillis m = ⌊((m : ℚ) + 500) / 1000⌋ := by
  have hq : ((m : ℚ) + 500) / 1000 = ((m + 500 : Int) : ℚ) / ((1000 : Nat) : ℚ) := by
    norm_cast
  rw [hq, Rat.floor_intCast_div_natCast]
  rfl

theorem secondOfMillis_mono {m m' : Int} (h : m ≤ m') : secondOfMillis m ≤ secondOfMillis m' :=
  Int.ediv_le_ediv (by omega) (Int.add_le_add_right h 500)

@[simp] theorem secondOfMillis_toMillis (dt : DateTime) :
    secondOfMillis dt.toMillis = dt.toSecond := by
  rw [secondOfMillis_eq_iff, DateTime.toMillis]
  omega

/-! ## Days and dates -/

/-- Within an era of 146097 days counted from 1 March of its first year, the
year a day falls in is below 400 and the day of that year is at most 365:
removing the leap days before the day leaves whole years of 365 days. -/
theorem yearOfEra_bounds {doe : Int} (h0 : 0 ≤ doe) (h1 : doe ≤ 146096) :
    let yoe := (doe - doe / 1460 + doe / 36524 - doe / 146096) / 365
    0 ≤ yoe ∧ yoe ≤ 399 ∧
      0 ≤ doe - (365 * yoe + yoe / 4 - yoe / 100) ∧
      doe - (365 * yoe + yoe / 4 - yoe / 100) ≤ 365 := by
  intro yoe
  rcases Int.lt_or_eq_of_le h1 with hlt | rfl
  · -- century `f` of the era, four-year cycle `j` of the century, day `i` of the cycle
    obtain ⟨f, hf0, hf1, r, hr0, hr1, hdoe⟩ :
        ∃ f, 0 ≤ f ∧ f ≤ 3 ∧ ∃ r, 0 ≤ r ∧ r < 36524 ∧ doe = 36524 * f + r :=
      ⟨doe / 36524, by omega, by omega, doe % 36524, by omega, by omega, by omega⟩
    obtain ⟨j, hj0, hj1, i, hi0, hi1, hr⟩ :
        ∃ j, 0 ≤ j ∧ j ≤ 24 ∧ ∃ i, 0 ≤ i ∧ i ≤ 1460 ∧ r = 1461 * j + i :=
      ⟨r / 1461, by omega, by omega, r % 1461, by omega, by omega, by omega⟩
    -- the last day of a cycle is the leap day of its fourth year
    have hy : yoe = 100 * f + 4 * j + min (i / 365) 3 := by omega
    have h4 : yoe / 4 = 25 * f + j := by omega
    have h100 : yoe / 100 = f := by omega
    omega
  · -- the last day of the era is the leap day of its 400th year
    omega

theorem monthOfYear_bounds {doy : Int} (h0 : 0 ≤ doy) (h1 : doy ≤ 365) :
    let mp := (5 * doy + 2) / 153
    0 ≤ mp ∧ mp ≤ 11 ∧ (153 * mp + 2) / 5 ≤ doy := by
  intro mp
  omega

theorem calendarMonth_inverse {mp : Int} (h0 : 0 ≤ mp) (h1 : mp ≤ 11) :
    let m := if mp < 10 then mp + 3 else mp - 9
    (m.toNat : Int) = m ∧ (m ≤ 2 ↔ 10 ≤ mp) ∧
      (if m.toNat > 2 then (m.toNat : Int) - 3 else (m.toNat : Int) + 9) = mp := by
  intro m
  by_cases h : mp < 10
  · have hm : m = mp + 3 := if_pos h
    have hn : (m.toNat : Int) = m := Int.toNat_of_nonneg (by omega)
    refine ⟨hn, by omega, ?_⟩
    rw [if_pos (by omega)]
    omega
  · have hm : m = mp - 9 := if_neg h
    have hn : (m.toNat : Int) = m := Int.toNat_of_nonneg (by omega)
    refine ⟨hn, by omega, ?_⟩
    rw [if_neg (by omega)]
    omega

theorem daysOfDate_dateOfDays (z : Int) :
    daysOfDate (dateOfDays z).1 (dateOfDays z).2.1 (dateOfDays z).2.2 = z := by
  unfold dateOfDays daysOfDate
  extract_lets z' era doe yoe doy mp d m y y' era' yoe' mp' doy' doe'
  have hdoe : doe = z + 719468 - era * 146097 := rfl
  have hera : era = (z + 719468) / 146097 := rfl
  have ⟨hy0, hy1, hd0, hd1⟩ : 0 ≤ yoe ∧ yoe ≤ 399 ∧ 0 ≤ doy ∧ doy ≤ 365 :=
    @yearOfEra_bounds doe (by omega) (by omega)
  have hdoy : doy = doe - (365 * yoe + yoe / 4 - yoe / 100) := rfl
  have ⟨hmp0, hmp1, hstart⟩ : 0 ≤ mp ∧ mp ≤ 11 ∧ (153 * mp + 2) / 5 ≤ doy :=
    monthOfYear_bounds hd0 hd1
  have ⟨hmn, hjan, hmp'⟩ := calendarMonth_inverse hmp0 hmp1
  have hd : d = doy - (153 * mp + 2) / 5 + 1 := rfl
  have hdn : (d.toNat : Int) = d := Int.toNat_of_nonneg (by omega)
  -- the year of a January or February date is the one after its March-based year
  have hy : y = yoe + era * 400 + if m ≤ 2 then 1 else 0 := rfl
  have hy' : y' = if m.toNat ≤ 2 then y - 1 else y := rfl
  have hyear : y' = yoe + era * 400 := by
    by_cases hj : 10 ≤ mp
    · rw [hy', if_pos (by omega), hy, if_pos (hjan.mpr hj)]
      omega
    · rw [hy', if_neg (by omega), hy, if_neg (fun h => hj (hjan.mp h))]
      omega
  have hera' : era' = era := by
    show y' / 400 = era
    omega
  have hyoe' : yoe' = yoe := by
    show y' - era' * 400 = yoe
    omega
  have hdoy' : doy' = doy := by
    show (153 * mp' + 2) / 5 + (d.toNat : Int) - 1 = doy
    rw [show mp' = mp from hmp', hdn]
    omega
  show era' * 146097 + (yoe' * 365 + yoe' / 4 - yoe' / 100 + doy') - 719468 = z
  rw [hera', hyoe', hdoy']
  omega

example : dateOfDays (-719468) = (0, 3, 1) := rfl

/-! ## Seconds and calendar values -/

/-- The date and time given for a second read back to that second: the day
count through `daysOfDate_dateOfDays`, the time of day through its hours,
minutes and seconds. -/
theorem toSecond_ofSecond {t : Int} {dt : DateTime} (h : DateTime.ofSecond t = .ok dt) :
    dt.toSecond = t := by
  unfold DateTime.ofSecond at h
  split at h
  · cases h
  · rcases hdate : dateOfDays (t / 86400) with ⟨y, m, d⟩
    have hdays := daysOfDate_dateOfDays (t / 86400)
    rw [hdate] at h hdays
    cases h
    have hs : ((t % 86400).toNat : Int) = t % 86400 :=
      Int.toNat_of_nonneg (Int.emod_nonneg _ (by omega))
    unfold DateTime.toSecond
    simp only at hdays ⊢
    rw [hdays]
    omega

/-- Calendar values are read to the nearest second: the instant `m`, in
milliseconds, reads as `⌊(m + 500) / 1000⌋`, the second whose window
`[1000 s - 500, 1000 s + 500)` holds it, before the epoch as after it, and a
later instant never reads as an earlier second. Every second of the
calendar range has a date and time that reads back to it, and a second
outside the range is refused, the second itself given as the reason. -/
theorem calendar_second_round_trip :
    (∀ m : Int, secondOfMillis m = ⌊((m : ℚ) + 500) / 1000⌋ ∧
      1000 * secondOfMillis m - 500 ≤ m ∧ m < 1000 * secondOfMillis m + 500) ∧
    (∀ m m' : Int, m ≤ m' → secondOfMillis m ≤ secondOfMillis m') ∧
    (∀ s : Int, firstSecond ≤ s → s ≤ lastSecond →
      ∃ dt, DateTime.ofSecond s = .ok dt ∧ secondOfMillis dt.toMillis = s) ∧
    (∀ s : Int, s < firstSecond ∨ lastSecond < s → DateTime.ofSecond s = .error ⟨s⟩) := by
  refine ⟨fun m => ⟨secondOfMillis_eq_floor m, secondOfMillis_window m⟩,
    fun _ _ => secondOfMillis_mono, fun s h0 h1 => ?_, fun s hs => if_pos hs⟩
  obtain ⟨dt, hdt⟩ : ∃ dt, DateTime.ofSecond s = .ok dt := ⟨_, if_neg (by omega)⟩
  refine ⟨dt, hdt, ?_⟩
  rw [secondOfMillis_toMillis, toSecond_ofSecond hdt]

end Civil

end RoundRobin
