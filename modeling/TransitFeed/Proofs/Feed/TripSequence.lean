import TransitFeed.Feed.TripSequence

/-!
# Trips that pass the sequence check

The check of a trip sorts its stop times by sequence number and then finds fault with a
repeated number, a time going back, an untimed end and a decreasing distance. A group it
finds no fault with has at least two stop times, and no two share a number: sorted, they
ascend strictly, and so does any part of them taken in that order.
-/

namespace TransitFeed

namespace TripSequence

/-- Inserting a stop time keeps every stop time. -/
theorem perm_insertBySequence (r : Record) (l : List Record) : (insertBySequence r l).Perm (r :: l) := by
  induction l with
  | nil => exact List.Perm.refl _
  | cons x xs ih =>
    unfold insertBySequence
    split
    · exact List.Perm.refl _
    · exact (ih.cons x).trans (List.Perm.swap r x xs)

/-- Sorting keeps every stop time. -/
theorem perm_sortBySequence (sts : List Record) : (sortBySequence sts).Perm sts := by
  induction sts with
  | nil => exact List.Perm.refl _
  | cons r rest ih => exact (perm_insertBySequence r _).trans (ih.cons r)

/-- Inserting a stop time among stop times in order of sequence number keeps the order. -/
theorem pairwise_insertBySequence (r : Record) {l : List Record}
    (hl : l.Pairwise (fun a b => sequenceOf a ≤ sequenceOf b)) :
    (insertBySequence r l).Pairwise (fun a b => sequenceOf a ≤ sequenceOf b) := by
  induction l with
  | nil => exact List.pairwise_singleton _ _
  | cons x xs ih =>
    obtain ⟨hx, hxs⟩ := List.pairwise_cons.mp hl
    unfold insertBySequence
    split
    · rename_i hrx
      refine List.pairwise_cons.mpr ⟨fun y hy => ?_, hl⟩
      rcases List.mem_cons.mp hy with rfl | hy
      · exact hrx
      · exact Int.le_trans hrx (hx y hy)
    · -- the stop time goes after `x`, which comes before every other one
      rename_i hrx
      refine List.pairwise_cons.mpr ⟨fun y hy => ?_, ih hxs⟩
      rcases List.mem_cons.mp ((perm_insertBySequence r xs).subset hy) with rfl | hy
      · omega
      · exact hx y hy

/-- Sorting puts stop times in order of sequence number. -/
theorem sortBySequence_pairwise (sts : List Record) :
    (sortBySequence sts).Pairwise (fun a b => sequenceOf a ≤ sequenceOf b) := by
  induction sts with
  | nil => exact List.Pairwise.nil
  | cons r rest ih => exact pairwise_insertBySequence r ih

/-- Stop times in order of sequence number with no repeated number ascend strictly. -/
theorem pairwise_lt_of_duplicateIssues {sts : List Record}
    (hle : sts.Pairwise (fun a b => sequenceOf a ≤ sequenceOf b)) (hdup : duplicateIssues sts = []) :
    sts.Pairwise (fun a b => sequenceOf a < sequenceOf b) := by
  fun_induction duplicateIssues sts with
  | case1 a b rest ih =>
    obtain ⟨hne, hrest⟩ := List.append_eq_nil_iff.mp hdup
    have hab : sequenceOf a ≠ sequenceOf b := by
      intro heq
      simp [heq] at hne
    have hlt := ih (List.pairwise_cons.mp hle).2 hrest
    refine List.pairwise_cons.mpr ⟨fun x hx => ?_, hlt⟩
    have hax := (List.pairwise_cons.mp hle).1 x hx
    -- the next stop time is strictly later, and every later one follows it
    rcases List.mem_cons.mp hx with rfl | hx
    · omega
    · have hbx := (List.pairwise_cons.mp hlt).1 x hx
      have hab' := (List.pairwise_cons.mp hle).1 b (by simp)
      omega
  | case2 l h1 =>
    match l, h1 with
    | [], _ => exact List.Pairwise.nil
    | [_], _ => exact List.pairwise_singleton _ _
    | _ :: _ :: _, h1 => exact absurd rfl (h1 _ _ _)

end TripSequence

/-- Sorting the stop times of a trip keeps them all. -/
theorem perm_validateStopTimes (sts : List Record) : (validateStopTimes sts).1.Perm sts := by
  unfold validateStopTimes
  split
  · exact List.Perm.refl _
  · exact List.Perm.refl _
  · exact TripSequence.perm_sortBySequence _

open TripSequence in
/-- A group that passes the check of its trip has at least two stop times, and the check
gives them back ascending strictly by sequence number. -/
theorem validateStopTimes_ascending {sts sorted : List Record}
    (h : validateStopTimes sts = (sorted, [])) :
    2 ≤ sts.length ∧ sorted.Pairwise (fun a b => sequenceOf a < sequenceOf b) := by
  unfold validateStopTimes at h
  match sts, h with
  | [], h => cases (Prod.mk.inj h).2
  | [_], h => cases (Prod.mk.inj h).2
  | a :: b :: rest, h =>
    obtain ⟨rfl, hnone⟩ := Prod.mk.inj h
    have hdup : duplicateIssues (sortBySequence (a :: b :: rest)) = [] := by
      simp only [List.append_eq_nil_iff] at hnone
      exact hnone.1.1.1.1
    exact ⟨by simp, pairwise_lt_of_duplicateIssues (sortBySequence_pairwise _) hdup⟩

end TransitFeed
