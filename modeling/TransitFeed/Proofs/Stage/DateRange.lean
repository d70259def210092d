import TransitFeed.Proofs.Stage.Redating

/-!
# Redating within the supported dates

Redating moves dates by whole days, and the day arithmetic aborts on a date outside the
supported range, years -262144 to 262143, or on a day count beyond what a time span holds.
Making a redating checks only that both windows have a day; nothing bounds them.

From dates of the supported range, a step forward aborts exactly when it leaves the range
(`shiftPanic?_eq_none_iff`), since the whole range spans fewer days than a time span holds.
So moving a calendar's dates, which visits every target day with the source day it replays,
aborts exactly when the replayed source days or the target days leave the range; moving the
feed information's dates aborts exactly when it has an end date and the target days leave
the range; and no calendar date's replay aborts while the target days stay in the range.
Main statement: `redate_aborts_iff_window_leaves_range`. A target window of 100 000 000 days
from 2022-01-02 aborts: `longTargetWindow_aborts_feedInfo`.
-/

namespace TransitFeed

namespace Redate

/-- The supported dates span fewer days than a time span holds. -/
theorem max_sub_min_lt_maxSpanDays : Date.max.day - Date.min.day < maxSpanDays := by
  decide

/-- From a date of the supported range, `n ≥ 0` days forward abort exactly when they leave
the range. -/
theorem shiftPanic?_eq_none_iff {d : Date} (hd : Date.min.day ≤ d.day) {n : Int} (hn : 0 ≤ n) :
    shiftPanic? d n = none ↔ d.day + n ≤ Date.max.day := by
  have hspan := max_sub_min_lt_maxSpanDays
  unfold shiftPanic?
  split
  · -- a day count beyond a time span already leaves the range
    simp only [reduceCtorEq, false_iff, not_le]
    omega
  · split
    · rename_i hsome
      simp only [Date.addDays?, Bool.and_eq_true, decide_eq_true_eq, Option.isSome_ite] at hsome
      simp only [true_iff]
      exact hsome.2
    · rename_i hnone
      simp only [Date.addDays?, Bool.and_eq_true, decide_eq_true_eq, Option.isSome_ite, not_and,
        not_le] at hnone
      simp only [reduceCtorEq, false_iff, not_le]
      exact hnone (by omega)

theorem emod_le_self {o s : Int} (ho : 0 ≤ o) (hs : 0 < s) : o % s ≤ o := by
  have hq : 0 ≤ s * (o / s) := Int.mul_nonneg hs.le (Int.ediv_nonneg ho hs.le)
  rw [Int.emod_def]
  omega

variable (r : Redate)

/-- The target days of a window in the range all are. -/
theorem shiftPanic?_target {o : Int} (htarget : Date.min.day ≤ r.target.day) (ho : 0 ≤ o ∧ o < r.targetDays)
    (hend : r.target.day + r.targetDays - 1 ≤ Date.max.day) : shiftPanic? r.target o = none :=
  (shiftPanic?_eq_none_iff htarget ho.1).mpr (by omega)

/-- With the target days in the range, the replay of a calendar on a target day aborts exactly
when the source day it replays leaves the range. -/
theorem dayPanic?_eq_none_iff (hs : 0 < r.sourceDays) (hstart : Date.min.day ≤ r.start.day)
    (htarget : Date.min.day ≤ r.target.day) (hend : r.target.day + r.targetDays - 1 ≤ Date.max.day)
    (c : Record) (lo hi : Option Date) {o : Nat} (ho : (o : Int) < r.targetDays) :
    r.dayPanic? c lo hi o = none ↔ r.start.day + (o : Int) % r.sourceDays ≤ Date.max.day := by
  have hmod : 0 ≤ (o : Int) % r.sourceDays := Int.emod_nonneg _ (by omega)
  have htday : shiftPanic? r.target o = none := r.shiftPanic?_target htarget ⟨by omega, ho⟩ hend
  unfold dayPanic?
  rw [Option.or_eq_none_iff, shiftPanic?_eq_none_iff hstart hmod]
  constructor
  · exact fun h => h.1
  · intro h
    refine ⟨h, ?_⟩
    split
    · exact htday
    · rfl

/-- The source days a calendar's replay visits lie in the range exactly when the replayed
source window does: the target days `o` replay the source offsets `o mod sourceDays`, whose
largest is `min sourceDays targetDays - 1`. -/
theorem sourceDays_in_range_iff (hs : 0 < r.sourceDays) (ht : 0 < r.targetDays) :
    (∀ o : Nat, (o : Int) < r.targetDays → r.start.day + (o : Int) % r.sourceDays ≤ Date.max.day) ↔
      r.start.day + min r.sourceDays r.targetDays - 1 ≤ Date.max.day := by
  constructor
  · intro h
    -- the last source offset visited is the one of target day `min sourceDays targetDays - 1`
    have hlast := h (min r.sourceDays r.targetDays - 1).toNat (by omega)
    rwa [Int.toNat_of_nonneg (by omega), Int.emod_eq_of_lt (by omega) (by omega), ← Int.add_sub_assoc]
      at hlast
  · intro h o ho
    have hlt : (o : Int) % r.sourceDays < r.sourceDays := Int.emod_lt_of_pos _ hs
    have hle : (o : Int) % r.sourceDays ≤ o := emod_le_self (by omega) hs
    omega

/-- Moving a calendar's dates aborts exactly when the replayed source days or the target days
leave the range. -/
theorem filterPanic?_calendar (hs : 0 < r.sourceDays) (ht : 0 < r.targetDays)
    (hstart : Date.min.day ≤ r.start.day) (htarget : Date.min.day ≤ r.target.day) {e : Record}
    (hk : e.kind = .calendar) :
    r.filterPanic? e = none ↔
      r.start.day + min r.sourceDays r.targetDays - 1 ≤ Date.max.day ∧
        r.target.day + r.targetDays - 1 ≤ Date.max.day := by
  have hendIff : shiftPanic? r.target (r.targetDays - 1) = none ↔
      r.target.day + r.targetDays - 1 ≤ Date.max.day := by
    rw [shiftPanic?_eq_none_iff htarget (by omega), Int.add_sub_assoc]
  simp only [filterPanic?, hk, Option.or_eq_none_iff, List.findSome?_eq_none_iff, List.mem_range, hendIff]
  -- every target day is visited, and the last target day is checked once more at the end
  constructor
  · rintro ⟨hdays, hend⟩
    refine ⟨(r.sourceDays_in_range_iff hs ht).mp fun o ho => ?_, hend⟩
    exact (r.dayPanic?_eq_none_iff hs hstart htarget hend _ _ _ ho).mp (hdays o (by omega))
  · rintro ⟨hsource, hend⟩
    refine ⟨fun o ho => ?_, hend⟩
    have ho' : (o : Int) < r.targetDays := by omega
    exact (r.dayPanic?_eq_none_iff hs hstart htarget hend _ _ _ ho').mpr
      ((r.sourceDays_in_range_iff hs ht).mpr hsource o ho')

/-- Moving the feed information's dates aborts exactly when it has an end date and the target
days leave the range. -/
theorem filterPanic?_feedInfo (ht : 0 < r.targetDays) (htarget : Date.min.day ≤ r.target.day)
    {e : Record} (hk : e.kind = .feedInfo) :
    r.filterPanic? e = none ↔
      (e.isPresent "feed_end_date" = true → r.target.day + r.targetDays - 1 ≤ Date.max.day) := by
  simp only [filterPanic?, hk]
  split
  · rename_i hend
    rw [shiftPanic?_eq_none_iff htarget (by omega), Int.add_sub_assoc]
    simp [hend]
  · rename_i hend
    simp [hend]

/-- The dates of other records do not move. -/
theorem filterPanic?_of_other {e : Record} (hc : e.kind ≠ .calendar) (hf : e.kind ≠ .feedInfo) :
    r.filterPanic? e = none := by
  unfold filterPanic?
  split <;> simp_all

/-- While the target days stay in the range, no calendar date's replay aborts: each target
date is a target day. -/
theorem expandPanic?_eq_none (hs : 0 < r.sourceDays) (htarget : Date.min.day ≤ r.target.day)
    (hend : r.target.day + r.targetDays - 1 ≤ Date.max.day) (e : Record) : r.expandPanic? e = none := by
  unfold expandPanic?
  split
  · rename_i d _ _
    rw [r.targetDates_eq hs, List.findSome?_eq_none_iff]
    intro t ht
    obtain ⟨o, ho, rfl⟩ := List.mem_map.mp ht
    have hlt := ((r.mem_replayOffsets).mp ho).1
    exact r.shiftPanic?_target htarget ⟨by simp [shift, Date.diff], by simpa [shift, Date.diff] using hlt⟩ hend
  · rfl

end Redate

open Redate in
/-- Redating aborts exactly when a window leaves the supported dates. For a redating that
`make?` accepts, from a start and a target date of the supported range: moving a calendar's
dates aborts exactly when the replayed source days, up to `min sourceDays targetDays` of them,
or the target days leave the range; moving the feed information's dates aborts exactly when
it has an end date and the target days leave the range; the dates of any other record move
without aborting; and while the target days stay in the range, no replay of a calendar date
aborts. -/
theorem redate_aborts_iff_window_leaves_range {start target : Date} {sourceDays targetDays : Int}
    {r : Redate} (hr : make? start sourceDays target targetDays = .ok r) (hstart : Date.min ≤ start)
    (htarget : Date.min ≤ target) (e : Record) :
    (r.filterPanic? e = none ↔
      (e.kind = .calendar → start.day + min sourceDays targetDays - 1 ≤ Date.max.day ∧
          target.day + targetDays - 1 ≤ Date.max.day) ∧
        (e.kind = .feedInfo → e.isPresent "feed_end_date" = true →
          target.day + targetDays - 1 ≤ Date.max.day)) ∧
      (target.day + targetDays - 1 ≤ Date.max.day → r.expandPanic? e = none) := by
  obtain ⟨hs, ht, rfl⟩ := make?_eq_ok.mp hr
  replace hstart : Date.min.day ≤ start.day := hstart
  replace htarget : Date.min.day ≤ target.day := htarget
  have hs' : 0 < sourceDays := by omega
  have ht' : 0 < targetDays := by omega
  refine ⟨?_, fun hend => expandPanic?_eq_none ⟨start, sourceDays, target, targetDays⟩ hs' htarget hend e⟩
  -- the calendar, the feed information and the other records each have their own condition
  by_cases hc : e.kind = .calendar
  · rw [filterPanic?_calendar ⟨start, sourceDays, target, targetDays⟩ hs' ht' hstart htarget hc]
    simp [hc]
  · by_cases hf : e.kind = .feedInfo
    · rw [filterPanic?_feedInfo ⟨start, sourceDays, target, targetDays⟩ ht' htarget hf]
      simp [hf]
    · simp [filterPanic?_of_other ⟨start, sourceDays, target, targetDays⟩ hc hf, hc, hf]

namespace Redate

/-- The feed information of the overflowing example, with its dates from 2018-06-03 to
2018-12-31. -/
def datedFeedInfo : Record :=
  { kind := .feedInfo,
    cells := [some (.text "P"), some (.text "http://p.example"), some (.text "en"), none,
      some (.date ⟨17685⟩), some (.date ⟨17896⟩), none, none, none] }

/-- A redating of the week from 2018-06-03 over 100 000 000 days from 2022-01-02 is accepted,
but a pipeline of it aborts on a feed information with an end date: the last target day lies
past the year 262143. -/
theorem longTargetWindow_aborts_feedInfo :
    make? ⟨17685⟩ 7 ⟨18994⟩ 100000000 = .ok ⟨⟨17685⟩, 7, ⟨18994⟩, 100000000⟩ ∧
      (Pipeline.mk [.redate ⟨⟨17685⟩, 7, ⟨18994⟩, 100000000⟩]).applyPanic? IdMap.empty datedFeedInfo =
        some "`NaiveDate + TimeDelta` overflowed" :=
  ⟨rfl, by decide⟩

/-- The redating of the examples, the first week from 2018-06-03 over four weeks from
2022-01-02, moves the weekday calendar and the dated feed information without aborting. -/
theorem fourWeeks_redates_in_range :
    make? ⟨17685⟩ 7 ⟨18994⟩ 28 = .ok ⟨⟨17685⟩, 7, ⟨18994⟩, 28⟩ ∧ Date.min ≤ ⟨17685⟩ ∧
      Date.min ≤ ⟨18994⟩ ∧
      ((Redate.mk ⟨17685⟩ 7 ⟨18994⟩ 28).filterPanic? weekdayCalendar = none ↔
        (weekdayCalendar.kind = .calendar → (17685 : Int) + min 7 28 - 1 ≤ Date.max.day ∧
            (18994 : Int) + 28 - 1 ≤ Date.max.day) ∧
          (weekdayCalendar.kind = .feedInfo → weekdayCalendar.isPresent "feed_end_date" = true →
            (18994 : Int) + 28 - 1 ≤ Date.max.day)) ∧
      ((18994 : Int) + 28 - 1 ≤ Date.max.day →
        (Redate.mk ⟨17685⟩ 7 ⟨18994⟩ 28).expandPanic? weekdayCalendar = none) := by
  have hr : make? ⟨17685⟩ 7 ⟨18994⟩ 28 = .ok ⟨⟨17685⟩, 7, ⟨18994⟩, 28⟩ := rfl
  have hstart : Date.min ≤ ⟨17685⟩ := by decide
  have htarget : Date.min ≤ ⟨18994⟩ := by decide
  exact ⟨hr, hstart, htarget, redate_aborts_iff_window_leaves_range hr hstart htarget weekdayCalendar⟩

end Redate

end TransitFeed
