import TransitFeed.Proofs.Feed.KeyUpdate

/-!
# Replaying the source window

A redating replays the source window over the target window: target day `o` replays the
source day `start + (o mod sourceDays)`. Calendar dates and calendars reach this relation by
two different formulas. A calendar date steps from its own offset in the source window by
`sourceDays` until the target window ends; a calendar gathers its weekday flags in a loop
over every target day, which finds the replayed source day by the remainder.

Both formulas give the relation. The target dates of a calendar date are exactly the target
days that replay its date, in increasing order (`expand_replays_calendar_date`). A redated
calendar spans the target window and runs on a weekday exactly when some target day of that
weekday replays a source day on which the calendar ran (`filter_calendar_replays_weekdays`).
When the source window is a whole number of weeks and the calendar's range covers the source
days that are replayed, the redated calendar runs on a target day exactly when the calendar
ran on the source day it replays.
-/

namespace TransitFeed

theorem Date.day_injective : Function.Injective Date.day := by
  intro a b h
  cases a
  cases b
  simp_all

/-- Two dates fall on the same weekday exactly when their days agree modulo seven. -/
theorem Date.weekday_eq_iff {a b : Date} : a.weekday = b.weekday ↔ a.day % 7 = b.day % 7 := by
  have hinj : ∀ i, i < 7 → ∀ j, j < 7 → Weekday.ofIndex i = Weekday.ofIndex j → i = j := by
    decide
  unfold weekday
  constructor
  · intro h
    have := hinj _ (by omega) _ (by omega) h
    omega
  · intro h
    congr 1
    omega

namespace Record

/-- Whether a calendar runs on a date: the date lies in the calendar's range, an absent bound
being no bound, and the calendar's flag for the date's weekday is set. -/
def activeOn (c : Record) (d : Date) : Bool :=
  Redate.inRange (c.date? "start_date") (c.date? "end_date") d && c.runsOn d

/-- Setting a filled column keeps its value there. -/
theorem date?_setCell_of_date? {e : Record} {name : String} {d : Date} (hd : e.date? name = some d)
    (t : Date) : (e.setCell name (some (.date t))).date? name = some t := by
  have hcell : e.cell name ≠ none := by
    intro hnone
    simp [date?, hnone] at hd
  simp [date?, cell_setCell_of_ne_none hcell]

end Record

namespace Redate

/-- A redating is made exactly from two windows of at least one day. -/
theorem make?_eq_ok {start target : Date} {sourceDays targetDays : Int} {r : Redate} :
    make? start sourceDays target targetDays = .ok r ↔
      1 ≤ sourceDays ∧ 1 ≤ targetDays ∧ r = ⟨start, sourceDays, target, targetDays⟩ := by
  unfold make?
  split
  · rename_i hsmall
    simp only [reduceCtorEq, false_iff]
    simp only [Bool.or_eq_true, decide_eq_true_eq] at hsmall
    omega
  · rename_i hsmall
    simp only [Bool.or_eq_true, decide_eq_true_eq, not_or, not_lt] at hsmall
    simp only [Except.ok.injEq]
    constructor
    · rintro rfl
      exact ⟨by omega, by omega, rfl⟩
    · rintro ⟨-, -, rfl⟩
      rfl

variable (r : Redate)

/-- Target day `o` replays `d` exactly when `o` leaves the remainder that is `d`'s offset in
the source window. -/
theorem sourceDate_eq_iff {o : Nat} {d : Date} :
    r.sourceDate o = d ↔ (o : Int) % r.sourceDays = d.diff r.start := by
  cases d
  simp only [sourceDate, shift, Date.diff, Date.mk.injEq]
  omega

/-- For an offset `a` of the source window, the naturals that leave the remainder `a` are those
a whole number of windows after it. -/
theorem emod_eq_iff {s a : Int} (hs : 0 < s) (ha : 0 ≤ a ∧ a < s) (k : Nat) :
    (k : Int) % s = a ↔ ∃ j : Nat, (k : Int) = a + j * s := by
  constructor
  · intro hk
    have hq : 0 ≤ (k : Int) / s := Int.ediv_nonneg (Int.natCast_nonneg k) hs.le
    have hdiv := Int.emod_add_ediv_mul (k : Int) s
    refine ⟨((k : Int) / s).toNat, ?_⟩
    rw [Int.toNat_of_nonneg hq]
    omega
  · rintro ⟨j, hj⟩
    rw [hj, Int.add_mul_emod_self_right, Int.emod_eq_of_lt ha.1 ha.2]

/-- A whole number of source windows is no step back. -/
theorem steps_nonneg (h : 0 < r.sourceDays) (j : Nat) : 0 ≤ (j : Int) * r.sourceDays :=
  Int.mul_nonneg (Int.natCast_nonneg j) h.le

/-! ### Calendar dates -/

/-- The target offsets that replay the source date `d`, in increasing order. -/
def replayOffsets (d : Date) : List Nat :=
  (List.range r.targetDays.toNat).filter fun o => r.sourceDate o == d

theorem mem_replayOffsets {d : Date} {o : Nat} :
    o ∈ r.replayOffsets d ↔ (o : Int) < r.targetDays ∧ r.sourceDate o = d := by
  simp [replayOffsets, Int.lt_toNat]

theorem replayOffsets_pairwise (d : Date) : (r.replayOffsets d).Pairwise (· < ·) :=
  List.pairwise_lt_range.filter _

/-- The days reached by stepping from target offset `o`: the offsets `o + j * sourceDays` of
the window, as far as the fuel goes. -/
theorem mem_replays_go (h : 0 < r.sourceDays) (t : Date) :
    ∀ (fuel : Nat) (o : Int), t ∈ replays.go r o fuel h ↔
      ∃ j : Nat, j < fuel ∧ o + j * r.sourceDays < r.targetDays ∧
        t = shift r.target (o + j * r.sourceDays)
  | 0, o => by simp [replays.go]
  | fuel + 1, o => by
    have hstep : ∀ j : Nat,
        o + ((j + 1 : Nat) : Int) * r.sourceDays = o + r.sourceDays + j * r.sourceDays := by
      intro j
      push_cast
      rw [Int.add_mul, Int.one_mul]
      omega
    rw [replays.go]
    split
    · rename_i hlt
      rw [List.mem_cons, mem_replays_go h t fuel (o + r.sourceDays)]
      constructor
      · rintro (rfl | ⟨j, hj, hin, rfl⟩)
        · exact ⟨0, by omega, by simpa using hlt, by simp⟩
        · exact ⟨j + 1, by omega, by rw [hstep]; exact hin, by rw [hstep]⟩
      · rintro ⟨j, hj, hin, rfl⟩
        cases j with
        | zero => exact .inl (by simp)
        | succ j => exact .inr ⟨j, by omega, by rw [← hstep]; exact hin, by rw [hstep]⟩
    · -- past the window nothing more is replayed
      simp only [List.not_mem_nil, false_iff, not_exists, not_and]
      intro j _ hin
      have := r.steps_nonneg h j
      omega

/-- The fuel `replays` gives reaches every step inside the window. -/
theorem mem_replays_go_toNat (h : 0 < r.sourceDays) (o : Int) (t : Date) :
    t ∈ replays.go r o (r.targetDays - o).toNat h ↔
      ∃ j : Nat, o + j * r.sourceDays < r.targetDays ∧ t = shift r.target (o + j * r.sourceDays) := by
  rw [mem_replays_go]
  constructor
  · rintro ⟨j, -, hin, rfl⟩
    exact ⟨j, hin, rfl⟩
  · rintro ⟨j, hin, rfl⟩
    -- each step moves at least one day on
    have hj : (j : Int) ≤ j * r.sourceDays := by
      have := Int.mul_le_mul_of_nonneg_left (show (1 : Int) ≤ r.sourceDays by omega)
        (Int.natCast_nonneg j)
      simpa using this
    exact ⟨j, by omega, hin, rfl⟩

/-- Stepping from an offset reaches later and later days. -/
theorem replays_go_pairwise (h : 0 < r.sourceDays) :
    ∀ (fuel : Nat) (o : Int), ((replays.go r o fuel h).map Date.day).Pairwise (· < ·)
  | 0, o => by simp [replays.go]
  | fuel + 1, o => by
    rw [replays.go]
    split
    · rw [List.map_cons, List.pairwise_cons]
      refine ⟨?_, replays_go_pairwise h fuel _⟩
      intro x hx
      obtain ⟨t, ht, rfl⟩ := List.mem_map.mp hx
      obtain ⟨j, -, -, rfl⟩ := (r.mem_replays_go h t fuel _).mp ht
      have := r.steps_nonneg h j
      simp only [shift]
      omega
    · simp

/-- No target day replays a date outside the source window. -/
theorem replayOffsets_eq_nil (h : 0 < r.sourceDays) {d : Date}
    (hout : d.diff r.start < 0 ∨ r.sourceDays ≤ d.diff r.start) : r.replayOffsets d = [] := by
  rw [List.eq_nil_iff_forall_not_mem]
  intro o ho
  have hrem := (r.sourceDate_eq_iff).mp (r.mem_replayOffsets.mp ho).2
  have h0 := Int.emod_nonneg (o : Int) (show r.sourceDays ≠ 0 by omega)
  have h1 := Int.emod_lt_of_pos (o : Int) h
  omega

/-- The target dates of a date are the target days that replay it, in increasing order: the
steps from the date's own offset are the offsets that leave that offset as remainder. -/
theorem targetDates_eq (h : 0 < r.sourceDays) (d : Date) :
    r.targetDates d = (r.replayOffsets d).map fun (o : Nat) => shift r.target o := by
  simp only [targetDates]
  split
  · rename_i hout
    simp only [Bool.or_eq_true, decide_eq_true_eq] at hout
    rw [r.replayOffsets_eq_nil h hout, List.map_nil]
  · rename_i hin
    simp only [Bool.or_eq_true, decide_eq_true_eq, not_or, not_lt, not_le] at hin
    unfold replays
    rw [dif_pos h]
    apply List.map_injective_iff.mpr Date.day_injective
    have hsorted : (((r.replayOffsets d).map fun (o : Nat) => shift r.target o).map Date.day).Pairwise (· < ·) := by
      rw [List.map_map, List.pairwise_map]
      exact (r.replayOffsets_pairwise d).imp fun hlt => by simp only [Function.comp, shift]; omega
    refine (r.replays_go_pairwise h _ _).eq_of_mem_iff hsorted fun x => ?_
    simp only [List.map_map, List.mem_map, Function.comp, r.mem_replays_go_toNat h,
      mem_replayOffsets, sourceDate_eq_iff, emod_eq_iff h hin]
    constructor
    · rintro ⟨t, ⟨j, hlt, rfl⟩, rfl⟩
      have := r.steps_nonneg h j
      refine ⟨(d.diff r.start + j * r.sourceDays).toNat, ⟨by omega, j, by omega⟩, ?_⟩
      simp only [shift]
      omega
    · rintro ⟨o, ⟨hlt, j, hj⟩, rfl⟩
      exact ⟨shift r.target o, ⟨j, by omega, by rw [hj]⟩, rfl⟩

/-- A calendar date with a date is replayed on the target days that replay its date. -/
theorem expand_of_date (h : 0 < r.sourceDays) {e : Record} {d : Date}
    (hk : e.kind = .calendarDate) (hd : e.date? "date" = some d) :
    r.expand e =
      some ((r.replayOffsets d).map fun (o : Nat) => e.setCell "date" (some (.date (shift r.target o)))) := by
  simp [expand, hk, hd, r.targetDates_eq h, Function.comp_def]

/-- Records other than calendar dates with a date are not expanded. -/
theorem expand_of_undated {e : Record} (h : e.kind ≠ .calendarDate ∨ e.date? "date" = none) :
    r.expand e = none := by
  unfold expand
  split
  · rename_i d hk hd
    rcases h with h | h
    · exact absurd hk h
    · simp [hd] at h
  · rfl

/-- Calendar dates are replayed by the relation of target and source days: a calendar date
with a date `d` becomes copies of itself, one per target day `o` whose replayed source day is
`d`, in increasing order of `o`, each dated `target + o` and otherwise unchanged, and none
when `d` lies outside the source window; other records are not expanded. -/
theorem expand_replays_calendar_date {start target : Date} {sourceDays targetDays : Int}
    {r : Redate} (hr : make? start sourceDays target targetDays = .ok r) (e : Record) :
    (∀ d, e.kind = .calendarDate → e.date? "date" = some d →
      r.expand e =
          some ((r.replayOffsets d).map fun (o : Nat) => e.setCell "date" (some (.date (shift target o)))) ∧
        ((r.replayOffsets d).map fun (o : Nat) => e.setCell "date" (some (.date (shift target o)))).map
            (·.date? "date") = (r.replayOffsets d).map (fun (o : Nat) => some (shift target o)) ∧
        (∀ t : Date, let x := e.setCell "date" (some (.date t))
          x.kind = e.kind ∧ x.line = e.line ∧ x.extra = e.extra ∧ x.loadIssues = e.loadIssues ∧
            ∀ name, name ≠ "date" → x.cell name = e.cell name) ∧
        (∀ o, o ∈ r.replayOffsets d ↔ (o : Int) < targetDays ∧ r.sourceDate o = d) ∧
        (r.replayOffsets d).Pairwise (· < ·) ∧
        (d.day < start.day ∨ start.day + sourceDays ≤ d.day → r.replayOffsets d = [])) ∧
      (e.kind ≠ .calendarDate ∨ e.date? "date" = none → r.expand e = none) := by
  obtain ⟨hsd, -, rfl⟩ := make?_eq_ok.mp hr
  have h : 0 < (Redate.mk start sourceDays target targetDays).sourceDays := by
    simp only
    omega
  refine ⟨fun d hk hd => ⟨expand_of_date _ h hk hd, ?_, fun t => ?_, fun o => mem_replayOffsets _,
    replayOffsets_pairwise _ d, fun hout => replayOffsets_eq_nil _ h ?_⟩, expand_of_undated _⟩
  · simp only [List.map_map, Function.comp_def, Record.date?_setCell_of_date? hd]
  · exact ⟨by simp, by simp, by simp, by simp, fun name hne =>
      Record.cell_setCell_of_ne _ _ (Ne.symm hne)⟩
  · simp only [Date.diff]
    omega

/-- The calendar date of the replaying example: the first source week replayed over four
target weeks, the date 2018-06-05 on 2022-01-04, 2022-01-11, 2022-01-18 and 2022-01-25. -/
def replayedHoliday : Record :=
  { kind := .calendarDate, cells := [some (.text "week"), some (.date ⟨17687⟩), some (.int 2)] }

theorem replayedHoliday_dates :
    make? ⟨17685⟩ 7 ⟨18994⟩ 28 = .ok ⟨⟨17685⟩, 7, ⟨18994⟩, 28⟩ ∧
      (Redate.mk ⟨17685⟩ 7 ⟨18994⟩ 28).replayOffsets ⟨17687⟩ = [2, 9, 16, 23] ∧
      (Redate.mk ⟨17685⟩ 7 ⟨18994⟩ 28).expand replayedHoliday =
        some ([2, 9, 16, 23].map fun (o : Nat) =>
          replayedHoliday.setCell "date" (some (.date (shift ⟨18994⟩ o)))) := by
  have hr : make? ⟨17685⟩ 7 ⟨18994⟩ 28 = .ok ⟨⟨17685⟩, 7, ⟨18994⟩, 28⟩ := rfl
  have hoffsets : (Redate.mk ⟨17685⟩ 7 ⟨18994⟩ 28).replayOffsets ⟨17687⟩ = [2, 9, 16, 23] := by
    decide
  refine ⟨hr, hoffsets, ?_⟩
  rw [← hoffsets]
  exact ((expand_replays_calendar_date hr replayedHoliday).1 ⟨17687⟩ rfl rfl).1

/-! ### Calendars -/

/-- The weekdays gathered over the target days `from_ ≤ o < from_ + count` are the weekdays of
those that replay a source day in the range on which the calendar ran. -/
theorem mem_activeWeekdays (c : Record) (lo hi : Option Date) (w : Date.Weekday) :
    ∀ (count from_ : Nat), w ∈ r.activeWeekdays c lo hi from_ count ↔
      ∃ o, from_ ≤ o ∧ o < from_ + count ∧ (shift r.target o).weekday = w ∧
        (inRange lo hi (r.sourceDate o) && c.runsOn (r.sourceDate o)) = true
  | 0, from_ => by
    simp only [activeWeekdays, List.not_mem_nil, false_iff, not_exists, not_and]
    intro o h1 h2
    omega
  | count + 1, from_ => by
    have ih := mem_activeWeekdays c lo hi w count (from_ + 1)
    -- the first target day of the stretch, then the rest of it
    have hsplit : ∀ P : Nat → Prop, (∃ o, from_ ≤ o ∧ o < from_ + (count + 1) ∧ P o) ↔
        P from_ ∨ ∃ o, from_ + 1 ≤ o ∧ o < from_ + 1 + count ∧ P o := by
      intro P
      constructor
      · rintro ⟨o, h1, h2, hp⟩
        by_cases ho : o = from_
        · exact .inl (ho ▸ hp)
        · exact .inr ⟨o, by omega, by omega, hp⟩
      · rintro (hp | ⟨o, h1, h2, hp⟩)
        · exact ⟨from_, by omega, by omega, hp⟩
        · exact ⟨o, by omega, by omega, hp⟩
    rw [hsplit fun o => (shift r.target o).weekday = w ∧
      (inRange lo hi (r.sourceDate o) && c.runsOn (r.sourceDate o)) = true, ← ih]
    simp only [activeWeekdays]
    split
    · rename_i hactive
      rw [List.mem_cons]
      constructor
      · rintro (rfl | hrest)
        · exact .inl ⟨rfl, hactive⟩
        · exact .inr hrest
      · rintro (⟨rfl, -⟩ | hrest)
        · exact .inl rfl
        · exact .inr hrest
    · rename_i hidle
      constructor
      · exact .inr
      · rintro (⟨-, hactive⟩ | hrest)
        · exact absurd hactive hidle
        · exact hrest

/-- Every weekday has a flag column among the calendar's columns. -/
theorem weekdayColumn_index (w : Date.Weekday) :
    ∃ i, Kind.calendar.columnIndex? (Record.weekdayColumn w) = some i := by
  cases w <;> exact ⟨_, rfl⟩

theorem weekdayColumn_injective : Function.Injective Record.weekdayColumn := by
  intro a b h
  cases a <;> cases b <;> simp_all [Record.weekdayColumn]

/-- The flag of a redated calendar for a weekday records whether the loop over the target
days gathered that weekday. -/
theorem calendar_flag {c : Record} (hk : c.kind = .calendar)
    (hfull : c.cells.length = c.kind.columns.length) (w : Date.Weekday) :
    (r.calendar c).flag (Record.weekdayColumn w) =
      (r.activeWeekdays c (c.date? "start_date") (c.date? "end_date") 0 r.targetDays.toNat).contains w := by
  have hstart : "start_date" ≠ Record.weekdayColumn w := by cases w <;> decide
  have hend : "end_date" ≠ Record.weekdayColumn w := by cases w <;> decide
  unfold calendar
  simp only [Record.flag, Record.cell_setCell_of_ne _ _ hend, Record.cell_setCell_of_ne _ _ hstart]
  -- the fold over the week sets this weekday's flag and leaves it alone otherwise
  have hcell := Record.foldl_cell_of_step_within
    (fun (x : Record) v => x.setCell (Record.weekdayColumn v)
      (some (.flag ((r.activeWeekdays c (c.date? "start_date") (c.date? "end_date") 0
        r.targetDays.toNat).contains v))))
    (Record.weekdayColumn w)
    (· = some (.flag ((r.activeWeekdays c (c.date? "start_date") (c.date? "end_date") 0
        r.targetDays.toNat).contains w)))
    (fun x => x.kind = .calendar ∧ x.cells.length = x.kind.columns.length) (· = w) week
    (fun x v hx => ⟨by simp [hx.1], by simp [hx.2]⟩)
    (fun x v _ hx hv => by
      subst hv
      obtain ⟨i, hi⟩ := weekdayColumn_index v
      exact Record.cell_setCell_of_index hx.2 (hx.1 ▸ hi) _)
    (fun x v _ hv => Record.cell_setCell_of_ne _ _ fun heq => hv (weekdayColumn_injective heq))
    c ⟨hk, hfull⟩ (.inr ⟨w, by cases w <;> decide, rfl⟩)
  rw [hcell]

/-- A redated calendar spans the target window, and runs on a weekday exactly when some
target day of that weekday replays a source day on which the calendar was active. -/
theorem calendar_replays_weekdays {c : Record} (hk : c.kind = .calendar)
    (hfull : c.cells.length = c.kind.columns.length) :
    ((r.calendar c).date? "start_date" = some r.target ∧
        (r.calendar c).date? "end_date" = some r.targetEnd) ∧
      ∀ w, (r.calendar c).flag (Record.weekdayColumn w) = true ↔
        ∃ o : Nat, (o : Int) < r.targetDays ∧ (shift r.target o).weekday = w ∧
          c.activeOn (r.sourceDate o) = true := by
  refine ⟨r.calendar_dates hk hfull, fun w => ?_⟩
  rw [r.calendar_flag hk hfull, List.contains_iff_mem, mem_activeWeekdays]
  constructor
  · rintro ⟨o, -, ho, hw, hactive⟩
    exact ⟨o, by omega, hw, hactive⟩
  · rintro ⟨o, ho, hw, hactive⟩
    exact ⟨o, Nat.zero_le o, by omega, hw, hactive⟩

/-- When the source window is a whole number of weeks, the source days replayed on two target
days of one weekday fall on one weekday too. -/
theorem sourceDate_weekday_eq (h7 : 7 ∣ r.sourceDays) {o o' : Nat}
    (hw : (shift r.target o').weekday = (shift r.target o).weekday) :
    (r.sourceDate o').weekday = (r.sourceDate o).weekday := by
  rw [Date.weekday_eq_iff] at hw ⊢
  simp only [shift, sourceDate] at hw ⊢
  have h' := Int.emod_emod_of_dvd (o' : Int) h7
  have h := Int.emod_emod_of_dvd (o : Int) h7
  omega

/-- A calendar whose range covers the replayed source days is in its range on every source
day that is replayed. -/
theorem inRange_sourceDate (h : 0 < r.sourceDays) {c : Record}
    (hlo : ∀ s, c.date? "start_date" = some s → s ≤ r.start)
    (hhi : ∀ e, c.date? "end_date" = some e → shift r.start (min r.sourceDays r.targetDays - 1) ≤ e)
    {o : Nat} (ho : (o : Int) < r.targetDays) :
    inRange (c.date? "start_date") (c.date? "end_date") (r.sourceDate o) = true := by
  have h0 := Int.emod_nonneg (o : Int) (show r.sourceDays ≠ 0 by omega)
  have h1 := Int.emod_lt_of_pos (o : Int) h
  -- the remainder is at most the offset itself
  have h2 : (o : Int) % r.sourceDays ≤ o := by
    have hq : 0 ≤ (o : Int) / r.sourceDays := Int.ediv_nonneg (Int.natCast_nonneg o) h.le
    have hdiv := Int.emod_add_ediv_mul (o : Int) r.sourceDays
    have : 0 ≤ (o : Int) / r.sourceDays * r.sourceDays := Int.mul_nonneg hq h.le
    omega
  unfold inRange
  rw [Bool.and_eq_true]
  constructor
  · cases hs : c.date? "start_date" with
    | none => rfl
    | some s =>
      have := hlo s hs
      simp only [decide_eq_true_eq, Date.le_iff_day, sourceDate, shift] at this ⊢
      omega
  · cases he : c.date? "end_date" with
    | none => rfl
    | some e =>
      have := hhi e he
      simp only [decide_eq_true_eq, Date.le_iff_day, sourceDate, shift] at this ⊢
      omega

/-- Redating keeps a calendar's service: it spans the target window, runs on a weekday exactly
when some target day of that weekday replays a source day on which the calendar was active;
and when the source window is a whole number of weeks and the calendar's range covers the
replayed source days, it is active on each target day exactly when the calendar was active on
the source day that target day replays. -/
theorem filter_calendar_replays_weekdays {start target : Date} {sourceDays targetDays : Int}
    {r : Redate} (hr : make? start sourceDays target targetDays = .ok r) {c : Record}
    (hk : c.kind = .calendar) (hfull : c.cells.length = c.kind.columns.length) :
    ((r.filter c).date? "start_date" = some target ∧
        (r.filter c).date? "end_date" = some (shift target (targetDays - 1))) ∧
      (∀ w, (r.filter c).flag (Record.weekdayColumn w) = true ↔
        ∃ o : Nat, (o : Int) < targetDays ∧ (shift target o).weekday = w ∧
          c.activeOn (shift start ((o : Int) % sourceDays)) = true) ∧
      (7 ∣ sourceDays → (∀ s, c.date? "start_date" = some s → s ≤ start) →
        (∀ e, c.date? "end_date" = some e → shift start (min sourceDays targetDays - 1) ≤ e) →
        ∀ o : Nat, (o : Int) < targetDays →
          (r.filter c).activeOn (shift target o) = c.activeOn (shift start ((o : Int) % sourceDays))) := by
  obtain ⟨hsd, -, rfl⟩ := make?_eq_ok.mp hr
  have hfilter : (Redate.mk start sourceDays target targetDays).filter c =
      (Redate.mk start sourceDays target targetDays).calendar c := by
    simp [filter, hk]
  rw [hfilter]
  obtain ⟨hdates, hflags⟩ := calendar_replays_weekdays _ hk hfull
  refine ⟨hdates, hflags, fun h7 hlo hhi o ho => ?_⟩
  -- the target day lies in the window, so only its weekday's flag decides
  have hwindow : inRange (some target) (some (shift target (targetDays - 1))) (shift target o) = true := by
    simp only [inRange, Bool.and_eq_true, decide_eq_true_eq, Date.le_iff_day, shift]
    omega
  have hweekday := hflags (shift target o).weekday
  simp only [Record.activeOn, hdates.1, hdates.2] at hweekday ⊢
  rw [show targetEnd _ = shift target (targetDays - 1) from rfl, hwindow, Bool.true_and,
    Record.runsOn, Bool.eq_iff_iff, hweekday]
  constructor
  · rintro ⟨o', ho', hw, hactive⟩
    have hsame := sourceDate_weekday_eq (Redate.mk start sourceDays target targetDays) h7 hw
    rw [Bool.and_eq_true] at hactive ⊢
    refine ⟨inRange_sourceDate (Redate.mk start sourceDays target targetDays) (by simp only; omega)
      hlo hhi ho, ?_⟩
    have hruns := hactive.2
    simp only [Record.runsOn, sourceDate] at hruns hsame ⊢
    rwa [hsame] at hruns
  · intro hactive
    exact ⟨o, ho, rfl, hactive⟩

/-- The weekday calendar of the redating example: Monday to Friday from 2018-06-03 to
2018-12-31. -/
def weekdayCalendar : Record :=
  { kind := .calendar,
    cells := [some (.text "week"), some (.flag true), some (.flag true), some (.flag true),
      some (.flag true), some (.flag true), some (.flag false), some (.flag false),
      some (.date ⟨17685⟩), some (.date ⟨17896⟩)] }

theorem weekdayCalendar_redated :
    make? ⟨17685⟩ 7 ⟨18994⟩ 28 = .ok ⟨⟨17685⟩, 7, ⟨18994⟩, 28⟩ ∧
      weekdayCalendar.kind = .calendar ∧
      weekdayCalendar.cells.length = weekdayCalendar.kind.columns.length ∧
      ((Redate.mk ⟨17685⟩ 7 ⟨18994⟩ 28).filter weekdayCalendar).date? "end_date" =
        some (shift ⟨18994⟩ 27) ∧
      ((Redate.mk ⟨17685⟩ 7 ⟨18994⟩ 28).filter weekdayCalendar).activeOn (shift ⟨18994⟩ 1) =
        weekdayCalendar.activeOn (shift ⟨17685⟩ (((1 : Nat) : Int) % 7)) := by
  have hr : make? ⟨17685⟩ 7 ⟨18994⟩ 28 = .ok ⟨⟨17685⟩, 7, ⟨18994⟩, 28⟩ := rfl
  have hstart : weekdayCalendar.date? "start_date" = some ⟨17685⟩ := rfl
  have hend : weekdayCalendar.date? "end_date" = some ⟨17896⟩ := rfl
  have h := filter_calendar_replays_weekdays hr (c := weekdayCalendar) rfl rfl
  refine ⟨hr, rfl, rfl, h.1.2, h.2.2 ⟨1, rfl⟩ ?_ ?_ 1 (by decide)⟩
  · intro s hs
    rw [hstart, Option.some.injEq] at hs
    subst hs
    exact Int.le_refl _
  · intro e he
    rw [hend, Option.some.injEq] at he
    subst he
    decide

end Redate

end TransitFeed
