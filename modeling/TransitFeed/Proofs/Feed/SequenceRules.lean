import Mathlib.Data.List.Dedup
import Mathlib.Data.List.Sort
import TransitFeed.Proofs.Feed.TripSequence
import TransitFeed.Proofs.Copy.Expansions

/-!
# The rules the check of a trip decides

`validateStopTimes` sorts the stop times of a trip by sequence number, keeping the given
order of equal numbers, and then finds fault with them. It finds none exactly when there
are at least two stop times, no two share a number, the first and the last have a time, no
arrival comes before the last known time of the stop times before it, and no distance comes
below the last distance before it (`validateStopTimes_eq_nil_iff`).

The last known time of a stop time is its departure, else its arrival, and only arrivals are
held against it. A departure is never compared with the times before it, so a stop time that
departs before an earlier one does, with no arrival of its own, goes unreported. Likewise a
distance that is not a number compares below nothing and above nothing, and the distances on
either side of it are never compared.

Each stop time whose number is taken already is one problem on the field stop_sequence, so
there are as many as the stop times exceed the distinct numbers; with distinct numbers the
sorted order, and with it every problem, is the same whatever the order of the input.
-/

namespace TransitFeed

namespace TripSequence

/-- The time a stop time passes on to the ones after it: its departure, else its arrival. -/
def knownTime (st : Record) : Option Time :=
  (st.time? "departure_time").or (st.time? "arrival_time")

/-- The last value `known` finds among stop times, reading back from the end. -/
def lastKnown {β : Type} (known : Record → Option β) (pre : List Record) : Option β :=
  pre.reverse.findSome? known

/-- No arrival comes before the last known time of the stop times before it. -/
def ArrivalsKeepTime (s : List Record) : Prop :=
  ∀ pre st post, s = pre ++ st :: post → ∀ l, lastKnown knownTime pre = some l →
    ∀ a, st.time? "arrival_time" = some a → ¬ a < l

/-- No distance along the shape comes below the last distance given before it. -/
def DistancesKeepOrder (s : List Record) : Prop :=
  ∀ pre st post, s = pre ++ st :: post → ∀ l, lastKnown (·.real? "shape_dist_traveled") pre = some l →
    ∀ d, st.real? "shape_dist_traveled" = some d → ¬ d < l

/-- Whether a stop time has an arrival or a departure. -/
def timed (st : Record) : Bool :=
  st.isPresent "arrival_time" || st.isPresent "departure_time"

/-- `out` holds the stop times of `l` in order of sequence number, those of one number in their
order in `l`: it is the stable sort of `l` by sequence number. -/
def IsStableSort (l out : List Record) : Prop :=
  out.Perm l ∧ out.Pairwise (fun a b => sequenceOf a ≤ sequenceOf b) ∧
    ∀ k, out.filter (fun r => sequenceOf r == k) = l.filter (fun r => sequenceOf r == k)

theorem lastKnown_nil {β : Type} (known : Record → Option β) : lastKnown known [] = none := rfl

theorem lastKnown_cons {β : Type} (known : Record → Option β) (x : Record) (pre : List Record) :
    lastKnown known (x :: pre) = (lastKnown known pre).or (known x) := by
  simp only [lastKnown, List.reverse_cons, List.findSome?_append, List.findSome?_singleton]

section Scan

variable {β : Type} (issues : Option β → List Record → List Issue) (known : Record → Option β)
  (ok : Record → β → Prop)

/-- A walk along the stop times that carries the last value `known` gives, and finds fault with
a stop time exactly when it is not `ok` against the value carried, finds nothing exactly when
every stop time is `ok` against the last value before it, or against the starting value when
there is none. -/
theorem scan_eq_nil_iff (hnil : ∀ last, issues last [] = [])
    (hcons : ∀ last st rest, issues last (st :: rest) = [] ↔
      (∀ l, last = some l → ok st l) ∧ issues ((known st).or last) rest = [])
    (s : List Record) (last : Option β) :
    issues last s = [] ↔
      ∀ pre st post, s = pre ++ st :: post → ∀ l, (lastKnown known pre).or last = some l → ok st l := by
  induction s generalizing last with
  | nil =>
    simp only [hnil, true_iff]
    intro pre st post h
    exact absurd h.symm (List.append_ne_nil_of_right_ne_nil pre (List.cons_ne_nil st post))
  | cons x rest ih =>
    rw [hcons, ih]
    constructor
    · rintro ⟨hhere, hrest⟩ pre st post hsplit l hl
      cases pre with
      | nil =>
        -- the head is judged against the starting value
        obtain ⟨rfl, -⟩ := List.cons.inj hsplit
        exact hhere l hl
      | cons y pre =>
        obtain ⟨rfl, htail⟩ := List.cons.inj hsplit
        rw [lastKnown_cons, Option.or_assoc] at hl
        exact hrest pre st post htail l hl
    · intro h
      refine ⟨fun l hl => h [] x rest rfl l hl, fun pre st post hsplit l hl => ?_⟩
      refine h (x :: pre) st post (by rw [hsplit, List.cons_append]) l ?_
      rwa [lastKnown_cons, Option.or_assoc]

end Scan

/-- The arrival check of one stop time, and what it passes on. -/
theorem timeIssues_cons_eq_nil_iff (last : Option Time) (st : Record) (rest : List Record) :
    timeIssues last (st :: rest) = [] ↔
      (∀ l, last = some l → ∀ a, st.time? "arrival_time" = some a → ¬ a < l) ∧
        timeIssues ((knownTime st).or last) rest = [] := by
  simp only [timeIssues, knownTime, List.append_eq_nil_iff]
  cases st.time? "arrival_time" <;> cases st.time? "departure_time" <;> cases last <;> simp

/-- The arrival checks find nothing exactly when no arrival comes before the last known time. -/
theorem timeIssues_eq_nil_iff (s : List Record) : timeIssues none s = [] ↔ ArrivalsKeepTime s := by
  rw [scan_eq_nil_iff timeIssues knownTime _ (fun _ => rfl) timeIssues_cons_eq_nil_iff s none]
  simp only [Option.or_none]
  rfl

/-- The distance check of one stop time, and what it passes on. -/
theorem distanceIssues_cons_eq_nil_iff (last : Option Float) (st : Record) (rest : List Record) :
    distanceIssues last (st :: rest) = [] ↔
      (∀ l, last = some l → ∀ d, st.real? "shape_dist_traveled" = some d → ¬ d < l) ∧
        distanceIssues ((st.real? "shape_dist_traveled").or last) rest = [] := by
  simp only [distanceIssues]
  cases st.real? "shape_dist_traveled" <;> cases last <;> simp

/-- The distance checks find nothing exactly when no distance comes below the last one. -/
theorem distanceIssues_eq_nil_iff (s : List Record) :
    distanceIssues none s = [] ↔ DistancesKeepOrder s := by
  rw [scan_eq_nil_iff distanceIssues (·.real? "shape_dist_traveled") _ (fun _ => rfl)
    distanceIssues_cons_eq_nil_iff s none]
  simp only [Option.or_none]
  rfl

/-- An end of the trip passes its check exactly when the stop time there has a time. -/
theorem endIssue_eq_nil_iff (position : String) (st : Option Record) :
    endIssue position st = [] ↔ ∀ x ∈ st, timed x = true := by
  cases st with
  | none => simp [endIssue]
  | some x =>
    simp only [endIssue, timed, Option.mem_def, Option.some.injEq, forall_eq']
    cases x.isPresent "arrival_time" <;> cases x.isPresent "departure_time" <;> simp

/-- With no two stop times on one number, none repeats the number before it. -/
theorem duplicateIssues_eq_nil_of_nodup {s : List Record} (h : (s.map sequenceOf).Nodup) :
    duplicateIssues s = [] := by
  fun_induction duplicateIssues s with
  | case1 a b rest ih =>
    have hab : sequenceOf a ≠ sequenceOf b := fun heq =>
      (List.nodup_cons.mp h).1 (by simp [heq])
    simp only [beq_iff_eq, hab, if_false, List.nil_append]
    exact ih (List.nodup_cons.mp h).2
  | case2 => rfl

/-- Among stop times in order of sequence number, none repeats the number before it exactly
when no two share a number. -/
theorem duplicateIssues_eq_nil_iff {s : List Record}
    (hs : s.Pairwise (fun a b => sequenceOf a ≤ sequenceOf b)) :
    duplicateIssues s = [] ↔ (s.map sequenceOf).Nodup := by
  refine ⟨fun h => ?_, duplicateIssues_eq_nil_of_nodup⟩
  exact List.pairwise_map.mpr ((pairwise_lt_of_duplicateIssues hs h).imp Int.ne_of_lt)

/-- Every repeat of a number is reported on the field stop_sequence, and nothing else is. -/
theorem field_of_mem_duplicateIssues {s : List Record} {i : Issue} (h : i ∈ duplicateIssues s) :
    i.field = some "stop_sequence" ∧ i.message = "duplicate stop_sequence in trip" := by
  fun_induction duplicateIssues s with
  | case1 a b rest ih =>
    rcases List.mem_append.mp h with h | h
    · split at h
      · obtain rfl := List.mem_singleton.mp h
        unfold Issue.atLine
        split <;> exact ⟨rfl, rfl⟩
      · simp at h
    · exact ih h
  | case2 => simp at h

theorem field_of_mem_timeIssues {last : Option Time} {s : List Record} {i : Issue}
    (h : i ∈ timeIssues last s) : i.field = some "arrival_time" := by
  induction s generalizing last with
  | nil => simp [timeIssues] at h
  | cons st rest ih =>
    simp only [timeIssues, List.mem_append] at h
    rcases h with h | h
    · split at h
      · split at h
        · simp [List.mem_singleton.mp h, Issue.sequence]
        · simp at h
      · simp at h
    · exact ih h

theorem field_of_mem_endIssue {position : String} {st : Option Record} {i : Issue}
    (h : i ∈ endIssue position st) : i.field = some "arrival_time" := by
  cases st with
  | none => simp [endIssue] at h
  | some x =>
    simp only [endIssue] at h
    split at h
    · simp [List.mem_singleton.mp h, Issue.sequence]
    · simp at h

theorem field_of_mem_distanceIssues {last : Option Float} {s : List Record} {i : Issue}
    (h : i ∈ distanceIssues last s) : i.field = some "shape_dist_traveled" := by
  induction s generalizing last with
  | nil => simp [distanceIssues] at h
  | cons st rest ih =>
    simp only [distanceIssues] at h
    split at h
    · exact ih h
    · rcases List.mem_append.mp h with h | h
      · split at h
        · split at h
          · simp [List.mem_singleton.mp h, Issue.sequence]
          · simp at h
        · simp at h
      · exact ih h

/-- Among stop times in order of sequence number, each whose number is already taken is one
repeat: there are as many as the stop times exceed the distinct numbers. -/
theorem length_duplicateIssues {s : List Record}
    (hs : s.Pairwise (fun a b => sequenceOf a ≤ sequenceOf b)) :
    (duplicateIssues s).length = s.length - (s.map sequenceOf).dedup.length := by
  fun_induction duplicateIssues s with
  | case1 a b rest ih =>
    have hrest := (List.pairwise_cons.mp hs).2
    have hab := (List.pairwise_cons.mp hs).1 b (by simp)
    -- in order of number, a number comes again later exactly when it comes next
    have hmem : sequenceOf a ∈ (b :: rest).map sequenceOf ↔ sequenceOf a = sequenceOf b := by
      constructor
      · intro hm
        obtain ⟨x, hx, hxa⟩ := List.mem_map.mp hm
        have hax := (List.pairwise_cons.mp hs).1 x hx
        rcases List.mem_cons.mp hx with rfl | hx
        · exact hxa.symm
        · have hbx := (List.pairwise_cons.mp hrest).1 x hx
          omega
      · intro heq
        simp [heq]
    have hle := (List.dedup_sublist ((b :: rest).map sequenceOf)).length_le
    have hlen := ih hrest
    simp only [List.length_map, List.length_cons] at hle hlen
    rw [List.map_cons]
    by_cases heq : sequenceOf a = sequenceOf b
    · rw [List.dedup_cons_of_mem (hmem.mpr heq)]
      simp only [heq, beq_self_eq_true, if_true, List.length_append, List.length_cons, hlen]
      simp only [List.length_nil]
      omega
    · rw [List.dedup_cons_of_notMem (mt hmem.mp heq)]
      simp only [beq_iff_eq, heq, if_false, List.nil_append, hlen, List.length_cons]
      omega
  | case2 l hl =>
    rcases l with _ | ⟨x, _ | ⟨y, l⟩⟩
    · rfl
    · simp
    · exact absurd rfl (hl x y l)

/-- Inserting a stop time keeps the order of the stop times of each number: it moves past
another only when its own number is higher. -/
theorem filter_insertBySequence (r : Record) (l : List Record) (k : Int) :
    (insertBySequence r l).filter (fun x => sequenceOf x == k) =
      (r :: l).filter (fun x => sequenceOf x == k) := by
  induction l with
  | nil => rfl
  | cons x xs ih =>
    unfold insertBySequence
    split
    · rfl
    · rename_i hrx
      rw [List.filter_cons, ih]
      by_cases hx : sequenceOf x = k
      · have hr : sequenceOf r ≠ k := by omega
        simp [hx, hr]
      · simp [List.filter_cons, hx]

/-- Sorting keeps the order of the stop times of each number. -/
theorem filter_sortBySequence (l : List Record) (k : Int) :
    (sortBySequence l).filter (fun x => sequenceOf x == k) = l.filter (fun x => sequenceOf x == k) := by
  induction l with
  | nil => rfl
  | cons r rest ih =>
    rw [sortBySequence, filter_insertBySequence, List.filter_cons, List.filter_cons, ih]

/-- Sorting by sequence number is the stable sort. -/
theorem sortBySequence_isStableSort (l : List Record) : IsStableSort l (sortBySequence l) :=
  ⟨perm_sortBySequence l, sortBySequence_pairwise l, filter_sortBySequence l⟩

/-- With no two stop times on one number, every order of them sorts the same. -/
theorem sortBySequence_eq_of_perm {sts sts' : List Record} (hp : sts'.Perm sts)
    (hnd : (sts.map sequenceOf).Nodup) : sortBySequence sts' = sortBySequence sts := by
  -- sorted with distinct numbers, both ascend strictly, and strictly ascending orders of one
  -- set of stop times agree
  have hlt : ∀ l, l.Perm sts → (sortBySequence l).Pairwise (fun a b => sequenceOf a < sequenceOf b) := by
    intro l hl
    have hnd' : ((sortBySequence l).map sequenceOf).Nodup :=
      (((perm_sortBySequence l).trans hl).map sequenceOf).nodup_iff.mpr hnd
    exact ((sortBySequence_pairwise l).and (List.pairwise_map.mp hnd')).imp
      fun h => Int.lt_iff_le_and_ne.mpr h
  refine List.Perm.eq_of_pairwise (fun a b _ _ hab hba => absurd (Int.lt_trans hab hba) (Int.lt_irrefl _))
    (hlt sts' hp) (hlt sts List.Perm.rfl) ?_
  exact (perm_sortBySequence sts').trans (hp.trans (perm_sortBySequence sts).symm)

end TripSequence

open TripSequence

/-- The check gives back the stop times sorted. -/
theorem validateStopTimes_fst (sts : List Record) : (validateStopTimes sts).1 = sortBySequence sts := by
  rcases sts with _ | ⟨a, _ | ⟨b, rest⟩⟩ <;> rfl

theorem validateStopTimes_of_two_le {sts : List Record} (h : 2 ≤ sts.length) :
    validateStopTimes sts =
      (sortBySequence sts, duplicateIssues (sortBySequence sts) ++ timeIssues none (sortBySequence sts) ++
        endIssue "first" (sortBySequence sts).head? ++ endIssue "last" (sortBySequence sts).getLast? ++
          distanceIssues none (sortBySequence sts)) := by
  rcases sts with _ | ⟨a, _ | ⟨b, rest⟩⟩
  · simp at h
  · simp at h
  · rfl

/-- The check finds no fault with a trip exactly when it has at least two stop times on
distinct numbers, the first and the last of them timed, no arrival before the last known time
and no distance below the last distance. -/
theorem validateStopTimes_eq_nil_iff (sts : List Record) :
    (validateStopTimes sts).2 = [] ↔
      2 ≤ sts.length ∧ (sts.map sequenceOf).Nodup ∧
        (∀ st ∈ (validateStopTimes sts).1.head?, timed st = true) ∧
        (∀ st ∈ (validateStopTimes sts).1.getLast?, timed st = true) ∧
        ArrivalsKeepTime (validateStopTimes sts).1 ∧ DistancesKeepOrder (validateStopTimes sts).1 := by
  rcases Nat.lt_or_ge sts.length 2 with hlt | hge
  · -- fewer than two stop times are reported alone
    have hne : (validateStopTimes sts).2 ≠ [] := by
      rcases sts with _ | ⟨a, _ | ⟨b, rest⟩⟩
      · simp [validateStopTimes]
      · simp [validateStopTimes]
      · simp at hlt
    simp only [hne, false_iff]
    omega
  · have hperm := perm_sortBySequence sts
    rw [validateStopTimes_of_two_le hge]
    simp only [List.append_eq_nil_iff, duplicateIssues_eq_nil_iff (sortBySequence_pairwise sts),
      (hperm.map sequenceOf).nodup_iff, timeIssues_eq_nil_iff, endIssue_eq_nil_iff,
      distanceIssues_eq_nil_iff]
    constructor
    · rintro ⟨⟨⟨⟨hd, ht⟩, hf⟩, hl⟩, hdist⟩
      exact ⟨hge, hd, hf, hl, ht, hdist⟩
    · rintro ⟨-, hd, hf, hl, ht, hdist⟩
      exact ⟨⟨⟨⟨hd, ht⟩, hf⟩, hl⟩, hdist⟩

/-- The problems of a trip on the field stop_sequence are its repeated numbers, as many as its
stop times exceed its distinct numbers. -/
theorem validateStopTimes_sequence_issues (sts : List Record) :
    (∀ i ∈ (validateStopTimes sts).2, i.field = some "stop_sequence" →
      i.message = "duplicate stop_sequence in trip") ∧
    ((validateStopTimes sts).2.filter (·.field == some "stop_sequence")).length =
      sts.length - (sts.map sequenceOf).dedup.length := by
  rcases Nat.lt_or_ge sts.length 2 with hlt | hge
  · -- the one problem of a short trip is on trip_id
    rcases sts with _ | ⟨a, _ | ⟨b, rest⟩⟩
    · simp [validateStopTimes, Issue.sequence]
    · simp [validateStopTimes, Issue.sequence]
    · simp at hlt
  · have hsorted := sortBySequence_pairwise sts
    have hlen : (sortBySequence sts).length = sts.length := (perm_sortBySequence sts).length_eq
    have hdedup : ((sortBySequence sts).map sequenceOf).dedup.length = (sts.map sequenceOf).dedup.length :=
      (((perm_sortBySequence sts).map sequenceOf).dedup).length_eq
    rw [validateStopTimes_of_two_le hge]
    constructor
    · intro i hi hfield
      simp only [List.mem_append] at hi
      rcases hi with (((hi | hi) | hi) | hi) | hi
      · exact (field_of_mem_duplicateIssues hi).2
      · simp [field_of_mem_timeIssues hi] at hfield
      · simp [field_of_mem_endIssue hi] at hfield
      · simp [field_of_mem_endIssue hi] at hfield
      · simp [field_of_mem_distanceIssues hi] at hfield
    · have hdup : (duplicateIssues (sortBySequence sts)).filter (·.field == some "stop_sequence") =
          duplicateIssues (sortBySequence sts) :=
        List.filter_eq_self.mpr fun i hi => by simp [(field_of_mem_duplicateIssues hi).1]
      have htime : (timeIssues none (sortBySequence sts)).filter (·.field == some "stop_sequence") = [] :=
        List.filter_eq_nil_iff.mpr fun i hi => by simp [field_of_mem_timeIssues hi]
      have hend : ∀ p st, (endIssue p st).filter (·.field == some "stop_sequence") = [] := fun _ _ =>
        List.filter_eq_nil_iff.mpr fun i hi => by simp [field_of_mem_endIssue hi]
      have hdist : (distanceIssues none (sortBySequence sts)).filter (·.field == some "stop_sequence") = [] :=
        List.filter_eq_nil_iff.mpr fun i hi => by simp [field_of_mem_distanceIssues hi]
      simp only [List.filter_append, hdup, htime, hend, hdist, List.append_nil]
      rw [length_duplicateIssues hsorted, hlen, hdedup]

/-- With no two stop times on one number, the problems of a trip do not depend on the order
its stop times come in. -/
theorem validateStopTimes_issues_of_perm {sts sts' : List Record} (hp : sts'.Perm sts)
    (hnd : (sts.map sequenceOf).Nodup) : (validateStopTimes sts').2 = (validateStopTimes sts).2 := by
  rcases Nat.lt_or_ge sts.length 2 with hlt | hge
  · -- at most one stop time has one order
    have hsame : sts' = sts := by
      rcases sts with _ | ⟨a, _ | ⟨b, rest⟩⟩
      · exact List.perm_nil.mp hp
      · exact List.perm_singleton.mp hp
      · simp at hlt
    rw [hsame]
  · have hge' : 2 ≤ sts'.length := hp.length_eq ▸ hge
    rw [validateStopTimes_of_two_le hge, validateStopTimes_of_two_le hge',
      sortBySequence_eq_of_perm hp hnd]

/-- The check of a trip decides its sequence rules. It gives back the stop times in the stable
sort by sequence number. It finds no fault exactly when there are two stop times or more, on
distinct numbers, the first and the last timed, no arrival before the departure (else the
arrival) of the last stop time before it that has one, and no distance below the last distance
before it. Its problems on stop_sequence are the repeated numbers, as many as the stop times
exceed the distinct numbers, and with distinct numbers its problems do not depend on the order
of the input. -/
theorem validateStopTimes_decides_sequence_rules (sts : List Record) :
    IsStableSort sts (validateStopTimes sts).1 ∧
    ((validateStopTimes sts).2 = [] ↔
      2 ≤ sts.length ∧ (sts.map sequenceOf).Nodup ∧
        (∀ st ∈ (validateStopTimes sts).1.head?, timed st = true) ∧
        (∀ st ∈ (validateStopTimes sts).1.getLast?, timed st = true) ∧
        ArrivalsKeepTime (validateStopTimes sts).1 ∧ DistancesKeepOrder (validateStopTimes sts).1) ∧
    (∀ i ∈ (validateStopTimes sts).2, i.field = some "stop_sequence" →
      i.message = "duplicate stop_sequence in trip") ∧
    ((validateStopTimes sts).2.filter (·.field == some "stop_sequence")).length =
      sts.length - (sts.map sequenceOf).dedup.length ∧
    (∀ sts', sts'.Perm sts → (sts.map sequenceOf).Nodup →
      (validateStopTimes sts').2 = (validateStopTimes sts).2) := by
  have hsort : IsStableSort sts (validateStopTimes sts).1 := by
    rw [validateStopTimes_fst]
    exact sortBySequence_isStableSort sts
  exact ⟨hsort, validateStopTimes_eq_nil_iff sts, (validateStopTimes_sequence_issues sts).1,
    (validateStopTimes_sequence_issues sts).2, fun _ hp hnd => validateStopTimes_issues_of_perm hp hnd⟩

/-- A stop time at number 1 that arrives and departs at 00:01:40. -/
def departsAtHundred : Record :=
  { kind := .stopTime,
    cells := [some (.text "T"), some (.time ⟨100⟩), some (.time ⟨100⟩), some (.text "S1"),
      some (.int 1), none, none, none, none, none, none, none] }

/-- A stop time at number 2 with no arrival, that departs at 00:00:50. -/
def departsAtFifty : Record :=
  { kind := .stopTime,
    cells := [some (.text "T"), none, some (.time ⟨50⟩), some (.text "S2"),
      some (.int 2), none, none, none, none, none, none, none] }

/-- Departures are not held against the times before them: the second stop time of this trip
departs before the first one does, and the check finds no fault. -/
theorem validateStopTimes_passes_earlier_departure :
    sequenceOf departsAtHundred < sequenceOf departsAtFifty ∧
      departsAtHundred.time? "departure_time" = some ⟨100⟩ ∧
      departsAtFifty.time? "departure_time" = some ⟨50⟩ ∧ (⟨50⟩ : Time) < ⟨100⟩ ∧
      (validateStopTimes [departsAtHundred, departsAtFifty]).2 = [] := by
  decide

end TransitFeed
