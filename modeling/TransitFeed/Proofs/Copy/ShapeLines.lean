import TransitFeed.Proofs.Copy.IdMapLaws

/-!
# Shape lines stay stably sorted

The identifier map keeps the points of a shape as one list, each point with its sequence
number: the line of a shape and its sequence numbers are the two projections of that list, so
they have the same length by construction. Adding a point puts it after every point whose
sequence number is not larger, and tells whether its sequence number is new by looking at the
last of those points only.

Main statement: `addShapePoints_sorts_lines_stably`. Over any run of additions from the empty
map, the list of each shape is the points added to it stably sorted by sequence number, and is
absent when none was; each addition tells whether no earlier addition to its shape had the same
sequence number. Both rest on the line being sorted: a point put after the points of equal
number comes last among them (`insertShapePoint_stableSortBySequence`), and the last point it
goes after has its number as soon as any point of the line has (`getLast?_takeWhile_all`).
-/

namespace TransitFeed

/-- A line whose points come in order of their sequence numbers. -/
def SequenceSorted (line : List ShapePoint) : Prop :=
  line.Pairwise fun a b => a.sequence ≤ b.sequence

/-- Points stably sorted by sequence number: points of equal number keep their order. -/
def stableSortBySequence (ps : List ShapePoint) : List ShapePoint :=
  ps.mergeSort fun a b => a.sequence ≤ b.sequence

/-- Every point of a sorted line has a number at least that of its first point. -/
theorem SequenceSorted.head_le {q : ShapePoint} {rest : List ShapePoint}
    (h : SequenceSorted (q :: rest)) : ∀ x ∈ q :: rest, q.sequence ≤ x.sequence := by
  intro x hx
  rcases List.mem_cons.1 hx with rfl | hx
  · exact Nat.le_refl _
  · exact (List.pairwise_cons.1 h).1 x hx

/-! ## Inserting into a sorted line -/

theorem perm_insertShapePoint (p : ShapePoint) (line : List ShapePoint) :
    (insertShapePoint p line).Perm (p :: line) := by
  induction line with
  | nil => rfl
  | cons q rest ih =>
    unfold insertShapePoint
    split
    · exact (ih.cons q).trans (List.Perm.swap p q rest)
    · rfl

theorem sequenceSorted_insertShapePoint {line : List ShapePoint} (h : SequenceSorted line)
    (p : ShapePoint) : SequenceSorted (insertShapePoint p line) := by
  induction line with
  | nil => exact List.pairwise_singleton _ p
  | cons q rest ih =>
    obtain ⟨hq, hrest⟩ := List.pairwise_cons.1 h
    unfold insertShapePoint
    split
    · next hqp =>
      refine List.pairwise_cons.2 ⟨fun r hr => ?_, ih hrest⟩
      rcases List.mem_cons.1 ((perm_insertShapePoint p rest).mem_iff.1 hr) with rfl | hr
      · exact hqp
      · exact hq r hr
    · next hqp =>
      refine List.pairwise_cons.2 ⟨fun r hr => ?_, h⟩
      have := h.head_le r hr
      omega

/-- The points of one sequence number in a sorted line, once a point is inserted: the new point
comes after those already there. -/
theorem filter_insertShapePoint {line : List ShapePoint} (h : SequenceSorted line)
    (p : ShapePoint) (n : Nat) :
    (insertShapePoint p line).filter (·.sequence == n) =
      line.filter (·.sequence == n) ++ if p.sequence = n then [p] else [] := by
  induction line with
  | nil => by_cases hp : p.sequence = n <;> simp [insertShapePoint, hp]
  | cons q rest ih =>
    have hrest := (List.pairwise_cons.1 h).2
    unfold insertShapePoint
    split
    · by_cases hqn : q.sequence = n <;> simp [hqn, ih hrest]
    · next hqp =>
      by_cases hp : p.sequence = n
      · -- the whole line comes after `p`, so none of it has the number of `p`
        have hnone : (q :: rest).filter (·.sequence == n) = [] :=
          List.filter_eq_nil_iff.2 fun r hr => by have := h.head_le r hr; simp; omega
        rw [List.filter_cons_of_pos (by simpa using hp), hnone]
        simp [hp]
      · rw [List.filter_cons_of_neg (by simpa using hp)]
        simp [hp]

/-! ## The stable sort -/

theorem sequenceSorted_stableSortBySequence (ps : List ShapePoint) :
    SequenceSorted (stableSortBySequence ps) := by
  have h := @List.pairwise_mergeSort _ (fun a b : ShapePoint => decide (a.sequence ≤ b.sequence))
    (fun a b c hab hbc => by simp at *; omega) (fun a b => by simp; omega) ps
  simpa [SequenceSorted, stableSortBySequence] using h

/-- Stability: the points of one sequence number come in the order they were given. -/
theorem filter_stableSortBySequence (ps : List ShapePoint) (n : Nat) :
    (stableSortBySequence ps).filter (·.sequence == n) = ps.filter (·.sequence == n) := by
  have hsub : (ps.filter (·.sequence == n)).Sublist (stableSortBySequence ps) := by
    apply List.sublist_mergeSort
    · intro a b c hab hbc
      simp at *
      omega
    · intro a b
      simp
      omega
    · -- all the points kept have the number `n`, so they are in order among themselves
      exact List.pairwise_filter.2 (List.pairwise_of_forall fun a b ha hb => by simp_all)
    · exact List.filter_sublist
  have hlen : (ps.filter (·.sequence == n)).length =
      ((stableSortBySequence ps).filter (·.sequence == n)).length :=
    (((List.mergeSort_perm ps _).filter _).length_eq).symm
  have hsub' := hsub.filter (·.sequence == n)
  rw [List.filter_filter] at hsub'
  simp only [Bool.and_self] at hsub'
  exact (hsub'.eq_of_length hlen).symm

/-- A sorted line is fixed by its points of each sequence number, in their order. -/
theorem eq_of_sequenceSorted_of_filter_eq :
    ∀ {l₁ l₂ : List ShapePoint}, SequenceSorted l₁ → SequenceSorted l₂ →
      (∀ n, l₁.filter (·.sequence == n) = l₂.filter (·.sequence == n)) → l₁ = l₂
  | [], [], _, _, _ => rfl
  | [], b :: _, _, _, h => by simpa using (h b.sequence).symm
  | a :: _, [], _, _, h => by simpa using h a.sequence
  | a :: t₁, b :: t₂, h₁, h₂, h => by
    have ht₁ := (List.pairwise_cons.1 h₁).2
    have ht₂ := (List.pairwise_cons.1 h₂).2
    -- each head is among the other line's points of its number, so both are the least
    have hba : b ∈ a :: t₁ :=
      (List.mem_filter.1 (show b ∈ (a :: t₁).filter (·.sequence == b.sequence) by
        rw [h b.sequence]; simp)).1
    have hab : a ∈ b :: t₂ :=
      (List.mem_filter.1 (show a ∈ (b :: t₂).filter (·.sequence == a.sequence) by
        rw [← h a.sequence]; simp)).1
    have hseq : a.sequence = b.sequence :=
      Nat.le_antisymm (h₁.head_le b hba) (h₂.head_le a hab)
    have hheads := h a.sequence
    simp only [List.filter_cons, hseq, beq_self_eq_true, if_true, List.cons.injEq] at hheads
    obtain ⟨rfl, -⟩ := hheads
    congr 1
    refine eq_of_sequenceSorted_of_filter_eq ht₁ ht₂ fun n => ?_
    have hn := h n
    by_cases han : a.sequence = n <;> simpa [List.filter_cons, han] using hn

/-- Inserting a point after the points of no larger sequence number extends the stable sort by
that point. -/
theorem insertShapePoint_stableSortBySequence (ps : List ShapePoint) (p : ShapePoint) :
    insertShapePoint p (stableSortBySequence ps) = stableSortBySequence (ps ++ [p]) := by
  have hsorted := sequenceSorted_stableSortBySequence ps
  refine eq_of_sequenceSorted_of_filter_eq (sequenceSorted_insertShapePoint hsorted p)
    (sequenceSorted_stableSortBySequence _) fun n => ?_
  rw [filter_insertShapePoint hsorted, filter_stableSortBySequence, filter_stableSortBySequence,
    List.filter_append]
  by_cases hp : p.sequence = n <;> simp [hp]

/-- In a sorted line, the last point of number at most `k` has the number `k` exactly when some
point of the line has. -/
theorem getLast?_takeWhile_all {line : List ShapePoint} (h : SequenceSorted line) (k : Nat) :
    (line.takeWhile (·.sequence ≤ k)).getLast?.all (·.sequence != k) =
      !line.any (·.sequence == k) := by
  induction line with
  | nil => rfl
  | cons q rest ih =>
    obtain ⟨hq, hrest⟩ := List.pairwise_cons.1 h
    by_cases hqk : q.sequence ≤ k
    · cases rest with
      | nil => simp [hqk, bne]
      | cons r t =>
        by_cases hrk : r.sequence ≤ k
        · -- `r` lies between `q` and `k`: `q` has the number `k` only if `r` has it too
          have hqr : q.sequence ≤ r.sequence := hq r List.mem_cons_self
          have ih' := ih hrest
          rw [List.takeWhile_cons_of_pos (by simpa using hrk)] at ih'
          rw [List.takeWhile_cons_of_pos (by simpa using hqk), List.takeWhile_cons_of_pos
            (by simpa using hrk), List.getLast?_cons_cons, ih']
          by_cases hqe : q.sequence = k
          · simp [hqe, show r.sequence = k by omega]
          · simp [hqe]
        · -- nothing after `q` has a number at most `k`
          rw [List.takeWhile_cons_of_pos (by simpa using hqk), List.takeWhile_cons_of_neg
            (by simpa using hrk)]
          have hnone : (r :: t).any (·.sequence == k) = false :=
            List.any_eq_false.2 fun x hx => by
              have := SequenceSorted.head_le hrest x hx; simp; omega
          simp only [List.any_cons] at hnone
          simp [hnone, bne]
    · -- `q` and every point after it are beyond `k`
      rw [List.takeWhile_cons_of_neg (by simpa using hqk)]
      have hnone : (q :: rest).any (·.sequence == k) = false :=
        List.any_eq_false.2 fun x hx => by have := h.head_le x hx; simp; omega
      simp [hnone]

namespace IdMap

/-! ## Runs of additions -/

/-- Adds points one after the other, each to its shape, and lists what each addition tells. -/
def addShapePoints (m : IdMap) : List (String × ShapePoint) → IdMap × List Bool
  | [] => (m, [])
  | c :: rest =>
    let added := m.addShapePoint c.1 c.2.sequence c.2.point
    let run := added.1.addShapePoints rest
    (run.1, added.2 :: run.2)

@[simp] theorem addShapePoints_nil (m : IdMap) : m.addShapePoints [] = (m, []) := rfl

@[simp] theorem addShapePoints_cons_fst (m : IdMap) (c : String × ShapePoint)
    (rest : List (String × ShapePoint)) :
    (m.addShapePoints (c :: rest)).1 =
      ((m.addShapePoint c.1 c.2.sequence c.2.point).1.addShapePoints rest).1 := rfl

@[simp] theorem addShapePoints_cons_snd (m : IdMap) (c : String × ShapePoint)
    (rest : List (String × ShapePoint)) :
    (m.addShapePoints (c :: rest)).2 =
      (m.addShapePoint c.1 c.2.sequence c.2.point).2 ::
        ((m.addShapePoint c.1 c.2.sequence c.2.point).1.addShapePoints rest).2 := rfl

/-- Every line of the map is sorted. -/
def ShapesSorted (m : IdMap) : Prop := ∀ s, SequenceSorted ((m.shapes.get? s).getD [])

theorem ShapesSorted.addShapePoint {m : IdMap} (h : m.ShapesSorted) (shape : String)
    (sequence : Nat) (p : Point) : (m.addShapePoint shape sequence p).1.ShapesSorted := by
  intro s
  rw [shapes_get?_addShapePoint]
  split
  · exact sequenceSorted_insertShapePoint (h shape) _
  · exact h s

/-- What an addition to a sorted line tells: whether no point of the line has its number. -/
theorem addShapePoint_unique {m : IdMap} {shape : String}
    (h : SequenceSorted ((m.shapes.get? shape).getD [])) (sequence : Nat) (p : Point) :
    (m.addShapePoint shape sequence p).2 =
      !((m.shapes.get? shape).getD []).any (·.sequence == sequence) :=
  getLast?_takeWhile_all h sequence

/-- Whether a line has a point of number `k`, once an addition is made. -/
theorem any_addShapePoint (m : IdMap) (c : String × ShapePoint) (s : String) (k : Nat) :
    (((m.addShapePoint c.1 c.2.sequence c.2.point).1.shapes.get? s).getD []).any
        (·.sequence == k) =
      (((m.shapes.get? s).getD []).any (·.sequence == k) || (c.1 == s && c.2.sequence == k)) := by
  rw [shapes_get?_addShapePoint]
  by_cases hc : c.1 = s
  · subst hc
    rw [if_pos rfl, Option.getD_some, (perm_insertShapePoint _ _).any_eq]
    simp [Bool.or_comm]
  · simp [hc]

/-- The line of a shape after a run: the stable sort of the points it had, followed by those the
run added to it. -/
theorem addShapePoints_line (calls : List (String × ShapePoint)) {m : IdMap} {s : String}
    {ps : List ShapePoint} (h : (m.shapes.get? s).getD [] = stableSortBySequence ps) :
    ((m.addShapePoints calls).1.shapes.get? s).getD [] =
      stableSortBySequence (ps ++ (calls.filter (·.1 == s)).map (·.2)) := by
  induction calls generalizing m ps with
  | nil => simpa using h
  | cons c rest ih =>
    rw [addShapePoints_cons_fst]
    by_cases hc : c.1 = s
    · -- the addition goes to `s`: its line is the stable sort extended by the point
      have hadded : ((m.addShapePoint c.1 c.2.sequence c.2.point).1.shapes.get? s).getD [] =
          stableSortBySequence (ps ++ [c.2]) := by
        rw [shapes_get?_addShapePoint, if_pos hc, Option.getD_some, hc, h,
          insertShapePoint_stableSortBySequence]
      rw [ih hadded]
      simp [hc]
    · rw [ih (by rw [shapes_get?_addShapePoint, if_neg hc, h])]
      simp [hc]

/-- A shape has a line after a run when it had one or the run added to it. -/
theorem addShapePoints_isSome (calls : List (String × ShapePoint)) (m : IdMap) (s : String) :
    ((m.addShapePoints calls).1.shapes.get? s).isSome =
      ((m.shapes.get? s).isSome || calls.any (·.1 == s)) := by
  induction calls generalizing m with
  | nil => simp
  | cons c rest ih =>
    rw [addShapePoints_cons_fst, ih, shapes_get?_addShapePoint]
    by_cases hc : c.1 = s
    · simp [hc]
    · simp [hc, beq_false_of_ne hc]

/-- What each addition of a run tells, from a map whose lines are sorted: whether neither the
line it goes to nor an earlier addition to the same shape had its number. -/
theorem addShapePoints_unique (calls : List (String × ShapePoint)) {m : IdMap}
    (h : m.ShapesSorted) :
    (m.addShapePoints calls).2 = calls.mapIdx fun i c =>
      !(((m.shapes.get? c.1).getD []).any (·.sequence == c.2.sequence) ||
        (calls.take i).any fun d => d.1 == c.1 && d.2.sequence == c.2.sequence) := by
  induction calls generalizing m with
  | nil => rfl
  | cons c rest ih =>
    rw [addShapePoints_cons_snd, List.mapIdx_cons, ih (h.addShapePoint _ _ _),
      addShapePoint_unique (h c.1)]
    simp only [List.take_zero, List.any_nil, Bool.or_false, List.take_succ_cons, List.any_cons,
      any_addShapePoint, Bool.or_assoc]

/-- The empty map has no line, so none out of order. -/
theorem shapesSorted_empty : IdMap.empty.ShapesSorted := fun s => by
  simp [IdMap.empty, SequenceSorted]

/-- Shape lines stay stably sorted: over any run of additions from the empty map, a shape has a
line exactly when some addition went to it, and its line is then the points added to it stably
sorted by sequence number (points of equal number in the order they were added). Each addition
tells whether no earlier addition to its shape had the same sequence number. -/
theorem addShapePoints_sorts_lines_stably (calls : List (String × ShapePoint)) :
    (∀ s, (IdMap.empty.addShapePoints calls).1.shapes.get? s =
      if calls.any (·.1 == s) then
        some (stableSortBySequence ((calls.filter (·.1 == s)).map (·.2)))
      else none) ∧
    (IdMap.empty.addShapePoints calls).2 = calls.mapIdx fun i c =>
      !(calls.take i).any fun d => d.1 == c.1 && d.2.sequence == c.2.sequence := by
  refine ⟨fun s => ?_, ?_⟩
  · have hempty : IdMap.empty.shapes.get? s = none := by simp [IdMap.empty]
    have hline := addShapePoints_line calls (m := IdMap.empty) (s := s)
      (show (IdMap.empty.shapes.get? s).getD [] = stableSortBySequence [] by
        rw [hempty, Option.getD_none, stableSortBySequence, List.mergeSort_nil])
    have hsome := addShapePoints_isSome calls IdMap.empty s
    rw [hempty, Option.isSome_none, Bool.false_or] at hsome
    rw [List.nil_append] at hline
    cases hget : (IdMap.empty.addShapePoints calls).1.shapes.get? s with
    | none =>
      rw [hget, Option.isSome_none] at hsome
      rw [← hsome]
      rfl
    | some line =>
      rw [hget, Option.isSome_some] at hsome
      rw [hget, Option.getD_some] at hline
      rw [← hsome, if_pos rfl, hline]
  · rw [addShapePoints_unique calls shapesSorted_empty]
    simp [IdMap.empty]

-- the third point repeats the number of the first: it is told so, and goes after the first
example :
    let run := IdMap.empty.addShapePoints
      [("s", ⟨1, (1.0, 48.0)⟩), ("s", ⟨2, (2.0, 48.0)⟩), ("s", ⟨1, (1.5, 48.0)⟩)]
    run.2 = [true, true, false] ∧
      run.1.shapeLine? "s" = some [(1.0, 48.0), (1.5, 48.0), (2.0, 48.0)] :=
  ⟨by decide, rfl⟩

end IdMap

end TransitFeed
