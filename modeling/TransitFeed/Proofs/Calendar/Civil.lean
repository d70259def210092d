import Mathlib.Tactic.IntervalCases
import TransitFeed.Calendar.Date

/-!
# Days and civil dates

`Date.civil` splits a day count into year, month and day by whole 400-year eras counted from
a 1 March, and `Date.dayOfCivil` counts the days back. The year of an era is recovered from
the day of the era by dividing out the leap days, and the month from the day of the year by
the 153-day rhythm of five months from March on.

Main statement: `Date.civil_valid`, the year, month and day of every date form a valid civil
date whose day count is the date again, and so `Date.ofCivil?_civil` gives the date back from
them whenever its year is supported.
-/

namespace TransitFeed

namespace Date

/-! ### The day of an era -/

/-- A day of a 400-year era splits into centuries, four-year groups, years and the day of a
year counted from 1 March; the 366th day falls in the last year of a group, in a group that
does not end a century unless the century ends the era. -/
theorem era_parts (doe : Int) (h0 : 0 ≤ doe) (h1 : doe ≤ 146096) :
    ∃ c q t doy : Int, (0 ≤ c ∧ c ≤ 3) ∧ (0 ≤ q ∧ q ≤ 24) ∧ (0 ≤ t ∧ t ≤ 3) ∧
      (0 ≤ doy ∧ doy ≤ 364 ∨ doy = 365 ∧ t = 3 ∧ (q ≠ 24 ∨ c = 3)) ∧
      doe = 36524 * c + 1461 * q + 365 * t + doy := by
  -- centuries first, the last one taking the era's extra day
  obtain ⟨c, hc⟩ : ∃ c, c = Min.min (doe / 36524) 3 := ⟨_, rfl⟩
  have hr1 : 0 ≤ doe - 36524 * c ∧ doe - 36524 * c ≤ 36524 := by omega
  obtain ⟨q, hq⟩ : ∃ q, q = Min.min ((doe - 36524 * c) / 1461) 24 := ⟨_, rfl⟩
  have hr2 : 0 ≤ doe - 36524 * c - 1461 * q ∧ doe - 36524 * c - 1461 * q ≤ 1460 := by omega
  obtain ⟨t, ht⟩ : ∃ t, t = Min.min ((doe - 36524 * c - 1461 * q) / 365) 3 := ⟨_, rfl⟩
  refine ⟨c, q, t, doe - 36524 * c - 1461 * q - 365 * t, by omega, by omega, by omega, ?_, by omega⟩
  omega

/-- Dividing out the leap days of a day of an era gives its year. -/
theorem yearOfEra_parts {c q t doy doe : Int} (hc : 0 ≤ c ∧ c ≤ 3) (hq : 0 ≤ q ∧ q ≤ 24)
    (ht : 0 ≤ t ∧ t ≤ 3) (hdoy : 0 ≤ doy ∧ doy ≤ 364 ∨ doy = 365 ∧ t = 3 ∧ (q ≠ 24 ∨ c = 3))
    (hdoe : doe = 36524 * c + 1461 * q + 365 * t + doy) :
    (doe - doe / 1460 + doe / 36524 - doe / 146096) / 365 = 100 * c + 4 * q + t := by
  by_cases hlast : doe = 146096
  · have hc3 : c = 3 := by omega
    have hq24 : q = 24 := by omega
    subst hlast
    omega
  -- each correction is a single division, which `omega` settles on its own
  · have h400 : doe / 146096 = 0 := by omega
    have h100 : doe / 36524 = c := by omega
    have h4 : doe / 1460 = 25 * c + q ∨ doe / 1460 = 25 * c + q + 1 := by omega
    rw [h400, h100]
    rcases h4 with h4 | h4 <;> rw [h4] <;> omega

/-! ### The day of a year counted from 1 March -/

/-- The civil date of the `doy`-th day, from 0, of the year that starts on 1 March of `y`. -/
def ofMarchDay (y doy : Int) : Int × Nat × Nat :=
  let mp := (5 * doy + 2) / 153
  let d := doy - (153 * mp + 2) / 5 + 1
  let m := if mp < 10 then mp + 3 else mp - 9
  ((if m ≤ 2 then y + 1 else y), m.toNat, d.toNat)

/-- A day of a year from 1 March, its 366th only when the next year is a leap year, is a
valid civil date, counted back to the day of its era. -/
theorem ofMarchDay_valid (y doy : Int)
    (hdoy : 0 ≤ doy ∧ doy ≤ 364 ∨ doy = 365 ∧ leapYear (y + 1) = true) :
    1 ≤ (ofMarchDay y doy).2.1 ∧ (ofMarchDay y doy).2.1 ≤ 12 ∧ 1 ≤ (ofMarchDay y doy).2.2 ∧
      (ofMarchDay y doy).2.2 ≤ monthLength (ofMarchDay y doy).1 (ofMarchDay y doy).2.1 ∧
      dayOfCivil (ofMarchDay y doy).1 (ofMarchDay y doy).2.1 (ofMarchDay y doy).2.2 =
        y / 400 * 146097 + ((y - y / 400 * 400) * 365 + (y - y / 400 * 400) / 4 -
          (y - y / 400 * 400) / 100 + doy) - 719468 := by
  obtain ⟨k, hk, hk11⟩ : ∃ k : Nat, (5 * doy + 2) / 153 = k ∧ k ≤ 11 :=
    ⟨((5 * doy + 2) / 153).toNat, by omega, by omega⟩
  have hrange : 153 * (k : Int) ≤ 5 * doy + 2 ∧ 5 * doy + 2 < 153 * ((k : Int) + 1) := by omega
  simp only [ofMarchDay, hk]
  -- one case per month, March first
  interval_cases k
  all_goals
    simp [dayOfCivil, monthLength, leapYear] at hdoy ⊢
    omega

/-! ### Civil dates -/

/-- The civil date of a day is that of its day of the year from 1 March, in the year of its
era. -/
theorem civil_eq_ofMarchDay (date : Date) {era doe yoe : Int}
    (hera : (date.day + 719468) / 146097 = era) (hdoe : date.day + 719468 - era * 146097 = doe)
    (hyoe : (doe - doe / 1460 + doe / 36524 - doe / 146096) / 365 = yoe) :
    date.civil = ofMarchDay (yoe + era * 400) (doe - (365 * yoe + yoe / 4 - yoe / 100)) := by
  subst hera hdoe hyoe
  rfl

/-- The year, month and day of a date form a valid civil date, whose day count is the date. -/
theorem civil_valid (date : Date) :
    1 ≤ date.civil.2.1 ∧ date.civil.2.1 ≤ 12 ∧ 1 ≤ date.civil.2.2 ∧
      date.civil.2.2 ≤ monthLength date.civil.1 date.civil.2.1 ∧
      dayOfCivil date.civil.1 date.civil.2.1 date.civil.2.2 = date.day := by
  obtain ⟨era, hera⟩ : ∃ era, (date.day + 719468) / 146097 = era := ⟨_, rfl⟩
  have hdoe0 : 0 ≤ date.day + 719468 - era * 146097 ∧ date.day + 719468 - era * 146097 ≤ 146096 := by
    omega
  obtain ⟨c, q, t, doy, hc, hq, ht, hdoy, hdoe⟩ := era_parts _ hdoe0.1 hdoe0.2
  rw [civil_eq_ofMarchDay date hera rfl (yearOfEra_parts hc hq ht hdoy hdoe)]
  have h4 : (100 * c + 4 * q + t) / 4 = 25 * c + q := by omega
  have h100 : (100 * c + 4 * q + t) / 100 = c := by omega
  have hday : date.day + 719468 - era * 146097 -
      (365 * (100 * c + 4 * q + t) + (100 * c + 4 * q + t) / 4 - (100 * c + 4 * q + t) / 100) = doy := by
    rw [h4, h100]
    omega
  rw [hday]
  -- the 366th day of a March year falls before 29 February of a leap year
  have hleap : 0 ≤ doy ∧ doy ≤ 364 ∨
      doy = 365 ∧ leapYear (100 * c + 4 * q + t + era * 400 + 1) = true := by
    rcases hdoy with h | ⟨rfl, rfl, hq'⟩
    · exact .inl h
    · refine .inr ⟨rfl, ?_⟩
      simp only [leapYear, Bool.or_eq_true, Bool.and_eq_true, beq_iff_eq, bne_iff_ne, ne_eq]
      omega
  obtain ⟨hm1, hm12, hd1, hdlen, hback⟩ := ofMarchDay_valid _ doy hleap
  have hy400 : (100 * c + 4 * q + t + era * 400) / 400 = era := by omega
  have hyoe : 100 * c + 4 * q + t + era * 400 - era * 400 = 100 * c + 4 * q + t := by omega
  refine ⟨hm1, hm12, hd1, hdlen, ?_⟩
  rw [hback, hy400, hyoe, h4, h100]
  omega

/-- A date of a supported year is the date of its year, month and day. -/
theorem ofCivil?_civil (date : Date) (hmin : minYear ≤ date.civil.1) (hmax : date.civil.1 ≤ maxYear) :
    ofCivil? date.civil.1 date.civil.2.1 date.civil.2.2 = some date := by
  obtain ⟨hm1, hm12, hd1, hdlen, hback⟩ := civil_valid date
  unfold ofCivil?
  rw [if_pos (by simp [hmin, hmax, hm1, hm12, hd1, hdlen]), hback]

end Date

end TransitFeed
