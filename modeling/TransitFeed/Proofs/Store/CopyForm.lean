import Mathlib.Data.String.Basic
import TransitFeed.Proofs.Feed.Settled
import TransitFeed.Proofs.Feed.SequenceRules

/-!
# Feeds in the form a copy writes them

A feed in memory appends each record it is given to the collection of its kind, so a feed built
from a list of records holds, for each kind, the records of that kind in list order.

A copy into a feed in memory, with identifiers kept, writes its records in a form of their own:
each in the collection of its kind; records well formed, passing their checks, with no optional
reference holding the empty text; every reference naming a record of its target, a stop's
parent station coming before it; and stop times grouped by trip in byte order of the trip
identifiers, each trip sorted by sequence and passing the check of its trip. `CopyForm` says so.
-/

namespace TransitFeed

namespace MemoryFeed

/-- Changing the values of an association list keeps its keys. -/
theorem lookup_map_snd {β : Type} (l : List (Kind × β)) (g : Kind → β → β) (k : Kind) :
    (l.map fun x => (x.1, g x.1 x.2)).lookup k = (l.lookup k).map (g k) := by
  induction l with
  | nil => rfl
  | cons x l ih =>
    obtain ⟨k', b⟩ := x
    by_cases hk : k = k'
    · subst hk
      simp
    · simp [List.lookup_cons, beq_false_of_ne hk, ih]

/-- The collection of a kind after a record is appended: its records and, when the record is
of that kind, the record last. -/
theorem records_push (f : MemoryFeed) (r : Record) (k : Kind) :
    (f.push r).records k = if r.kind = k then f.records k ++ [r] else f.records k := by
  unfold push records
  split
  · rename_i hany
    -- every collection of the record's kind grows by the record, the others stay
    have hmap : ∀ x ∈ f.collections, (if (x.1 == r.kind) = true then (x.1, x.2 ++ [r]) else x) =
        (x.1, if x.1 = r.kind then x.2 ++ [r] else x.2) := by
      intro x _
      by_cases h : x.1 = r.kind <;> simp [h]
    rw [List.map_congr_left hmap]
    dsimp only
    rw [lookup_map_snd (g := fun k' rs => if k' = r.kind then rs ++ [r] else rs)]
    by_cases hk : r.kind = k
    · subst hk
      obtain ⟨x, hx, hxk⟩ := List.any_eq_true.mp hany
      have hxk' : (r.kind == x.1) = true := by
        rw [beq_iff_eq] at hxk ⊢
        exact hxk.symm
      obtain ⟨rs, hrs⟩ := Option.isSome_iff_exists.mp
        ((List.lookup_isSome_iff (k := r.kind)).mpr ⟨x, hx, hxk'⟩)
      simp [hrs]
    · cases f.collections.lookup k <;> simp [hk, Ne.symm hk]
  · -- the record's kind has no collection yet: one is added at the end
    rename_i hany
    dsimp only
    rw [List.lookup_append]
    by_cases hk : r.kind = k
    · subst hk
      have hnone : f.collections.lookup r.kind = none :=
        List.lookup_eq_none_iff.mpr fun x hx => by
          have hne : ¬(x.1 == r.kind) = true := fun hxk => hany (List.any_eq_true.mpr ⟨x, hx, hxk⟩)
          rw [beq_iff_eq] at hne
          simpa [bne_iff_ne] using Ne.symm hne
      simp [hnone]
    · have hne : (k == r.kind) = false := beq_false_of_ne (Ne.symm hk)
      cases f.collections.lookup k <;> simp [List.lookup_cons, hne, hk]

/-- Appending records one by one adds to each collection the records of its kind, in order. -/
theorem records_foldl_push (L : List Record) (f : MemoryFeed) (k : Kind) :
    (L.foldl push f).records k = f.records k ++ L.filter (·.kind = k) := by
  induction L generalizing f with
  | nil => simp
  | cons r L ih =>
    rw [List.foldl_cons, ih, records_push]
    by_cases hk : r.kind = k <;> simp [hk]

/-- A feed built from records holds, for each kind, the records of that kind in order. -/
theorem records_ofRecords (L : List Record) (k : Kind) :
    (ofRecords L).records k = L.filter (·.kind = k) := by
  rw [ofRecords, records_foldl_push]
  rfl

end MemoryFeed

/-- In a list sorted by a key, with no key below `k`, the elements of key `k` come first. -/
theorem filter_eq_append_filter_ne_of_sorted {α β : Type} [LinearOrder β] (key : α → β) (k : β) :
    ∀ {l : List α}, l.Pairwise (fun a b => key a ≤ key b) → (∀ a ∈ l, k ≤ key a) →
      (l.filter fun a => key a = k) ++ (l.filter fun a => key a ≠ k) = l
  | [], _, _ => rfl
  | a :: l, hl, hge => by
    obtain ⟨ha, hl⟩ := List.pairwise_cons.mp hl
    by_cases hak : key a = k
    · have ih := filter_eq_append_filter_ne_of_sorted key k hl fun b hb => hge b (List.mem_cons_of_mem _ hb)
      rw [List.filter_cons_of_pos (by simpa using hak), List.filter_cons_of_neg (by simpa using hak),
        List.cons_append, ih]
    · -- past the first element of another key, every key is above `k`
      have hlt : k < key a := lt_of_le_of_ne (hge a List.mem_cons_self) (Ne.symm hak)
      have hnone : (l.filter fun b => key b = k) = [] :=
        List.filter_eq_nil_iff.mpr fun b hb => by
          have := lt_of_lt_of_le hlt (ha b hb)
          simp [ne_of_gt this]
      have hall : (l.filter fun b => key b ≠ k) = l :=
        List.filter_eq_self.mpr fun b hb => by
          have := lt_of_lt_of_le hlt (ha b hb)
          simp [ne_of_gt this]
      rw [List.filter_cons_of_neg (by simpa using hak), List.filter_cons_of_pos (by simpa using hak),
        hnone, hall, List.nil_append]

/-- A list sorted by a key, whose keys all lie in a strictly increasing list of keys, is its
elements of each key in turn. -/
theorem flatMap_filter_eq_of_sorted {α β : Type} [LinearOrder β] (key : α → β) :
    ∀ {ks : List β} {l : List α}, ks.Pairwise (· < ·) → l.Pairwise (fun a b => key a ≤ key b) →
      (∀ a ∈ l, key a ∈ ks) → ks.flatMap (fun k => l.filter fun a => key a = k) = l
  | [], l, _, _, hmem => by
    cases l with
    | nil => rfl
    | cons a _ => exact absurd (hmem a List.mem_cons_self) List.not_mem_nil
  | k :: ks, l, hks, hl, hmem => by
    obtain ⟨hk, hks⟩ := List.pairwise_cons.mp hks
    have hge : ∀ a ∈ l, k ≤ key a := fun a ha => by
      rcases List.mem_cons.mp (hmem a ha) with h | h
      · exact h ▸ le_refl k
      · exact le_of_lt (hk _ h)
    -- the later keys pick their elements out of the rest
    have hrest : ks.flatMap (fun k' => l.filter fun a => key a = k') =
        ks.flatMap (fun k' => (l.filter fun a => key a ≠ k).filter fun a => key a = k') := by
      refine List.flatMap_congr fun k' hk' => ?_
      rw [List.filter_filter]
      refine List.filter_congr fun a _ => ?_
      by_cases hak : key a = k'
      · simp [hak, ne_of_gt (hk k' hk')]
      · simp [hak]
    rw [List.flatMap_cons, hrest, flatMap_filter_eq_of_sorted key hks (hl.sublist List.filter_sublist)
      fun a ha => ?_]
    · -- the elements of the least key come first
      exact filter_eq_append_filter_ne_of_sorted key k hl hge
    · obtain ⟨hal, hak⟩ := List.mem_filter.mp ha
      rcases List.mem_cons.mp (hmem a hal) with h | h
      · simp [h] at hak
      · exact h

open TripSequence in
/-- Stop times already in order of sequence number sort to themselves. -/
theorem sortBySequence_eq_self {sts : List Record}
    (h : sts.Pairwise fun a b => sequenceOf a ≤ sequenceOf b) : sortBySequence sts = sts := by
  induction sts with
  | nil => rfl
  | cons r rest ih =>
    obtain ⟨hr, hrest⟩ := List.pairwise_cons.mp h
    rw [sortBySequence, ih hrest]
    cases rest with
    | nil => rfl
    | cons x xs => simp [insertBySequence, hr x List.mem_cons_self]

open TripSequence in
/-- The check of a trip gives the same answer on its stop times sorted. -/
theorem validateStopTimes_sortBySequence (sts : List Record) :
    validateStopTimes (sortBySequence sts) = validateStopTimes sts := by
  have hsorted := sortBySequence_eq_self (sortBySequence_isStableSort sts).2.1
  match sts with
  | [] => rfl
  | [_] => rfl
  | a :: b :: rest =>
    have hlen := (perm_sortBySequence (a :: b :: rest)).length_eq
    match hs : sortBySequence (a :: b :: rest), hlen with
    | c :: d :: rest', _ =>
      rw [hs] at hsorted
      simp only [validateStopTimes, hsorted, hs]

namespace MemoryFeed

open TripSequence

/-- The stop times of a trip, in feed order. -/
def tripStopTimes (f : MemoryFeed) (t : String) : List Record :=
  (f.records .stopTime).filter (·.str "trip_id" = t)

/-- The form in which a copy into a feed in memory, with identifiers kept, writes a feed. -/
structure CopyForm (f : MemoryFeed) : Prop where
  /-- Each record is in the collection of its kind. -/
  keyed : f.Keyed
  valid : f.Valid
  settled : ∀ k, ∀ r ∈ f.records k, r.RefsSettled
  closed : f.Closed
  /-- A stop's parent station comes before it. -/
  parentsFirst : ∀ pre r post, f.records .stop = pre ++ r :: post →
    ∀ p, r.text? "parent_station" = some p → ∃ x ∈ pre, x.entityId = p
  /-- Stop times are grouped by trip, in byte order of the trip identifiers. -/
  tripsOrdered : (f.records .stopTime).Pairwise fun a b => a.str "trip_id" ≤ b.str "trip_id"
  /-- The stop times of each trip come in order of sequence number. -/
  tripsSorted : ∀ t, (f.tripStopTimes t).Pairwise fun a b => sequenceOf a ≤ sequenceOf b
  tripsPass : f.TripsPass

end MemoryFeed

end TransitFeed
