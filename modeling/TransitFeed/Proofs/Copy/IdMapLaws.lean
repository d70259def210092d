import TransitFeed.Copy.IdMap

/-!
# Laws of the identifier map

Recording an identifier changes the lookup of that identifier alone; recording the
geometry of stops and shapes leaves every identifier as it was. The old identifiers of a
collection are listed once each, and exactly those that have a new identifier.
-/

namespace TransitFeed

namespace IdMap

@[simp] theorem get?_empty (c o : String) : IdMap.empty.get? c o = none := rfl

theorem get?_set (m : IdMap) (c o n c' o' : String) :
    (m.set c o n).get? c' o' = if c' = c ∧ o' = o then some n else m.get? c' o' := by
  simp only [get?, set, Std.TreeMap.get?_eq_getElem?, Std.TreeMap.getElem?_insert]
  by_cases hc : c' = c
  · subst hc
    by_cases ho : o' = o
    · subst ho
      simp
    · have hne : compare o o' ≠ .eq := fun h => ho (Std.LawfulEqCmp.eq_of_compare h).symm
      simp only [Std.compare_self, if_true, Option.bind_some, Std.TreeMap.getElem?_insert, hne,
        if_false, ho, and_false]
      cases m.ids[c']? <;> simp
  · have hne : compare c c' ≠ .eq := fun h => hc (Std.LawfulEqCmp.eq_of_compare h).symm
    simp [hne, hc]

theorem contains_set (m : IdMap) (c o n c' o' : String) :
    (m.set c o n).contains c' o' = ((c' = c ∧ o' = o) || m.contains c' o') := by
  by_cases h : c' = c ∧ o' = o <;> simp [contains, get?_set, h]

@[simp] theorem get?_addStopPoint (m : IdMap) (stop : String) (p : Point) (c o : String) :
    (m.addStopPoint stop p).get? c o = m.get? c o := rfl

@[simp] theorem contains_addStopPoint (m : IdMap) (stop : String) (p : Point) (c o : String) :
    (m.addStopPoint stop p).contains c o = m.contains c o := rfl

@[simp] theorem get?_addShapePoint (m : IdMap) (shape : String) (sequence : Nat) (p : Point)
    (c o : String) : (m.addShapePoint shape sequence p).1.get? c o = m.get? c o := rfl

@[simp] theorem contains_addShapePoint (m : IdMap) (shape : String) (sequence : Nat) (p : Point)
    (c o : String) : (m.addShapePoint shape sequence p).1.contains c o = m.contains c o := rfl

/-- Adding a point to a shape changes the line of that shape alone. -/
theorem shapes_get?_addShapePoint (m : IdMap) (shape : String) (sequence : Nat) (p : Point)
    (s : String) :
    (m.addShapePoint shape sequence p).1.shapes.get? s =
      if shape = s then some (insertShapePoint ⟨sequence, p⟩ ((m.shapes.get? shape).getD []))
      else m.shapes.get? s := by
  simp only [addShapePoint, Std.TreeMap.get?_eq_getElem?, Std.TreeMap.getElem?_insert,
    Std.compare_eq_iff_eq]

/-- The listed old identifiers of a collection are those with a new identifier. -/
theorem mem_keysFor (m : IdMap) (c o : String) : o ∈ m.keysFor c ↔ m.contains c o = true := by
  simp only [keysFor, contains, get?]
  cases m.ids.get? c <;> simp [Std.TreeMap.mem_keys]

theorem nodup_keysFor (m : IdMap) (c : String) : (m.keysFor c).Nodup := by
  simp only [keysFor]
  cases m.ids.get? c <;> simp [Std.TreeMap.nodup_keys]

/-- The old identifiers of a collection are listed in strictly increasing byte order. -/
theorem keysFor_sorted (m : IdMap) (c : String) : (m.keysFor c).Pairwise (· < ·) := by
  unfold keysFor
  cases m.ids.get? c with
  | none => exact List.Pairwise.nil
  | some inner =>
    exact (Std.TreeMap.ordered_keys (t := inner)).imp fun h => compareOfLessAndEq_eq_lt.mp h

end IdMap

end TransitFeed
