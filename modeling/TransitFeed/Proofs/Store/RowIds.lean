import TransitFeed.Store.Relational
import TransitFeed.Proofs.Feed.Closed

/-!
# Resolving row ids in a relational store

Reading a collection back turns a row id into a natural identifier by grouping the rows of the
target table on their identifier cell, in the order of the cells' bytes, each group standing
for its least row id alone. For a table whose row ids are distinct integers and whose
identifier cells are texts or nothing, a row id therefore resolves to the identifier of its
row exactly when it is the least row id among the rows of that identifier, and to nothing
otherwise.
-/

namespace TransitFeed

/-! ### The order of bytes -/

namespace Sql

theorem compareBytes_cons_cons (x y : UInt8) (xs ys : List UInt8) :
    compareBytes (x :: xs) (y :: ys) =
      if x < y then .lt else if y < x then .gt else compareBytes xs ys := rfl

/-- Two bytes are equal when neither is below the other. -/
theorem byte_eq_of_not_lt {x y : UInt8} (hxy : ¬x < y) (hyx : ¬y < x) : x = y := by
  rw [UInt8.lt_iff_toNat_lt] at hxy hyx
  exact UInt8.toNat_inj.mp (by omega)

theorem compareBytes_eq_iff : ∀ {a b : List UInt8}, compareBytes a b = .eq ↔ a = b
  | [], [] => by simp [compareBytes]
  | [], _ :: _ => by simp [compareBytes]
  | _ :: _, [] => by simp [compareBytes]
  | x :: xs, y :: ys => by
    rw [compareBytes_cons_cons, List.cons.injEq]
    by_cases hxy : x < y
    · simp only [hxy, if_true, reduceCtorEq, false_iff, not_and]
      rintro rfl
      exact absurd hxy (UInt8.lt_irrefl x)
    · by_cases hyx : y < x
      · simp only [hxy, hyx, if_true, if_false, reduceCtorEq, false_iff, not_and]
        rintro rfl
        exact absurd hyx (UInt8.lt_irrefl x)
      · simp [byte_eq_of_not_lt hxy hyx, compareBytes_eq_iff]

/-- Comparing the other way round swaps the answer. -/
theorem compareBytes_swap : ∀ (a b : List UInt8), compareBytes b a = (compareBytes a b).swap
  | [], [] => rfl
  | [], _ :: _ => rfl
  | _ :: _, [] => rfl
  | x :: xs, y :: ys => by
    rw [compareBytes_cons_cons, compareBytes_cons_cons]
    by_cases hxy : x < y
    · have hyx : ¬y < x := fun h => absurd (UInt8.lt_trans hxy h) (UInt8.lt_irrefl x)
      simp [hxy, hyx, Ordering.swap]
    · by_cases hyx : y < x
      · simp [hxy, hyx, Ordering.swap]
      · simp [hxy, hyx, compareBytes_swap xs ys]

/-- A list of bytes is at most another when its first differing byte is smaller, or when it
is a prefix of the other. -/
theorem compareBytes_cons_ne_gt {x y : UInt8} {xs ys : List UInt8} :
    compareBytes (x :: xs) (y :: ys) ≠ .gt ↔ x < y ∨ (x = y ∧ compareBytes xs ys ≠ .gt) := by
  rw [compareBytes_cons_cons]
  by_cases hxy : x < y
  · simp [hxy]
  · by_cases hyx : y < x
    · have hne : x ≠ y := fun h => by subst h; exact UInt8.lt_irrefl x hyx
      simp [hxy, hyx, hne]
    · simp [byte_eq_of_not_lt hxy hyx]

/-- Being at most another list of bytes is transitive. -/
theorem compareBytes_trans : ∀ {a b c : List UInt8}, compareBytes a b ≠ .gt → compareBytes b c ≠ .gt →
    compareBytes a c ≠ .gt
  | [], _, [] => by simp [compareBytes]
  | [], _, _ :: _ => by simp [compareBytes]
  | _ :: _, [], _ => by simp [compareBytes]
  | _ :: _, _ :: _, [] => by simp [compareBytes]
  | x :: xs, y :: ys, z :: zs => by
    intro hab hbc
    rw [compareBytes_cons_ne_gt] at hab hbc ⊢
    rcases hab with hxy | ⟨rfl, hab⟩
    · rcases hbc with hyz | ⟨rfl, -⟩
      · exact .inl (UInt8.lt_trans hxy hyz)
      · exact .inl hxy
    · rcases hbc with hyz | ⟨rfl, hbc⟩
      · exact .inl hyz
      · exact .inr ⟨rfl, compareBytes_trans hab hbc⟩

/-! ### Identifier cells -/

/-- The bytes of a byte array are those of its array. -/
theorem byteArray_toList_loop (bs : ByteArray) :
    ∀ (n i : Nat) (r : List UInt8), bs.size - i = n →
      ByteArray.toList.loop bs i r = r.reverse ++ bs.data.toList.drop i
  | 0, i, r, h => by
    rw [ByteArray.toList.loop]
    have hi : ¬i < bs.size := by omega
    have hlen : bs.data.toList.length ≤ i := by simp only [Array.length_toList]; exact Nat.le_of_not_lt hi
    simp [hi, List.drop_eq_nil_of_le hlen]
  | n + 1, i, r, h => by
    rw [ByteArray.toList.loop]
    have hi : i < bs.size := by omega
    have hlen : i < bs.data.toList.length := by simpa using hi
    rw [if_pos hi, byteArray_toList_loop bs n (i + 1) _ (by omega), List.drop_eq_getElem_cons hlen]
    simp [ByteArray.get!, getElem!_pos bs.data i hi]

theorem byteArray_toList (bs : ByteArray) : bs.toList = bs.data.toList :=
  (byteArray_toList_loop bs _ 0 [] rfl).trans (by simp)

/-- Texts with the same bytes are the same. -/
theorem utf8_toList_inj {s t : String} (h : s.toUTF8.toList = t.toUTF8.toList) : s = t := by
  simp only [String.toUTF8_eq_toByteArray, byteArray_toList] at h
  exact String.toByteArray_inj.mp (ByteArray.ext (Array.toList_inj.mp h))

end Sql

namespace SqlValue

/-- The cells a table is grouped on by identifier: texts, and nothing. -/
def isKey : SqlValue → Bool
  | .null | .text _ => true
  | _ => false

/-- A key is nothing or a text. -/
theorem isKey_cases {a : SqlValue} (h : a.isKey) : a = .null ∨ ∃ s, a = .text s := by
  cases a <;> simp_all [isKey]

/-- The text a key stands for: its text, or the empty text for nothing. -/
def keyText : SqlValue → String
  | .text s => s
  | _ => ""

/-- The bytes of a key; none for nothing. -/
def keyBytes : SqlValue → Option (List UInt8)
  | .text s => some s.toUTF8.toList
  | _ => none

theorem keyBytes_inj {a b : SqlValue} (ha : a.isKey) (hb : b.isKey) (h : a.keyBytes = b.keyBytes) :
    a = b := by
  cases a <;> cases b <;> simp_all [isKey, keyBytes]
  exact Sql.utf8_toList_inj h

end SqlValue

namespace Sql

/-- The order of keys: nothing first, then texts by their bytes. -/
def compareKeys : Option (List UInt8) → Option (List UInt8) → Ordering
  | none, none => .eq
  | none, some _ => .lt
  | some _, none => .gt
  | some a, some b => compareBytes a b

/-- The store compares keys by their bytes. -/
theorem compareValues_of_isKey {a b : SqlValue} (ha : a.isKey) (hb : b.isKey) :
    compareValues a b = compareKeys a.keyBytes b.keyBytes := by
  rcases SqlValue.isKey_cases ha with rfl | ⟨s, rfl⟩ <;>
    rcases SqlValue.isKey_cases hb with rfl | ⟨t, rfl⟩ <;> rfl

theorem compareKeys_eq_iff {a b : Option (List UInt8)} : compareKeys a b = .eq ↔ a = b := by
  cases a <;> cases b <;> simp [compareKeys, compareBytes_eq_iff]

theorem compareKeys_swap (a b : Option (List UInt8)) : compareKeys b a = (compareKeys a b).swap := by
  cases a with
  | none => cases b <;> rfl
  | some x =>
    cases b with
    | none => rfl
    | some y => exact compareBytes_swap x y

theorem compareKeys_trans {a b c : Option (List UInt8)} (hab : compareKeys a b ≠ .gt)
    (hbc : compareKeys b c ≠ .gt) : compareKeys a c ≠ .gt := by
  cases a <;> cases b <;> cases c <;> simp_all [compareKeys]
  exact compareBytes_trans hab hbc

/-- Keys the store finds equal are equal. -/
theorem eq_of_compareValues_eq {a b : SqlValue} (ha : a.isKey) (hb : b.isKey)
    (h : compareValues a b = .eq) : a = b := by
  rw [compareValues_of_isKey ha hb, compareKeys_eq_iff] at h
  exact SqlValue.keyBytes_inj ha hb h

theorem compareValues_self {a : SqlValue} (ha : a.isKey) : compareValues a a = .eq := by
  rw [compareValues_of_isKey ha ha, compareKeys_eq_iff]

theorem compareValues_swap {a b : SqlValue} (ha : a.isKey) (hb : b.isKey) :
    compareValues b a = (compareValues a b).swap := by
  rw [compareValues_of_isKey ha hb, compareValues_of_isKey hb ha, compareKeys_swap]

/-- Keys each at most the other are equal. -/
theorem eq_of_compareValues_ne_gt {a b : SqlValue} (ha : a.isKey) (hb : b.isKey)
    (hab : compareValues a b ≠ .gt) (hba : compareValues b a ≠ .gt) : a = b := by
  rw [compareValues_swap ha hb] at hba
  refine eq_of_compareValues_eq ha hb ?_
  cases h : compareValues a b <;> simp_all [Ordering.swap]

end Sql

/-! ### Grouping the rows of a table -/

namespace Sql.Database

/-- One step of grouping sorted pairs: a pair joins the last group when their keys are equal,
and starts a new group otherwise. -/
def groupStep (acc : List (SqlValue × List SqlValue)) (p : SqlValue × SqlValue) :
    List (SqlValue × List SqlValue) :=
  match acc.getLast? with
  | some (g, vs) =>
    if compareValues g p.1 == .eq then acc.dropLast ++ [(g, vs ++ [p.2])] else acc ++ [(p.1, [p.2])]
  | none => [(p.1, [p.2])]

/-- The order pairs are sorted in before grouping: by key. -/
def keyLe (a b : SqlValue × SqlValue) : Bool := compareValues a.1 b.1 != .gt

theorem groups_eq (keys : List (SqlValue × SqlValue)) :
    groups keys = (keys.mergeSort keyLe).foldl groupStep [] := rfl

/-- Groups of pairs: each group holds exactly the values its key has among the pairs, every
key of the pairs has a group, no two groups have the same key, and no group is empty. -/
structure Grouping (P : List (SqlValue × SqlValue)) (R : List (SqlValue × List SqlValue)) : Prop where
  members : ∀ g ∈ R, ∀ v, v ∈ g.2 ↔ (g.1, v) ∈ P
  covers : ∀ p ∈ P, ∃ g ∈ R, g.1 = p.1
  keys_nodup : (R.map (·.1)).Nodup
  nonempty : ∀ g ∈ R, g.2 ≠ []

namespace Grouping

variable {P : List (SqlValue × SqlValue)} {R : List (SqlValue × List SqlValue)}

theorem key_mem (h : Grouping P R) {g : SqlValue × List SqlValue} (hg : g ∈ R) : ∃ v, (g.1, v) ∈ P :=
  let ⟨v, hv⟩ := List.exists_mem_of_ne_nil _ (h.nonempty g hg)
  ⟨v, (h.members g hg v).mp hv⟩

/-- Only which pairs there are matters, not their order. -/
theorem of_mem_iff {P' : List (SqlValue × SqlValue)} (h : Grouping P R) (hP : ∀ p, p ∈ P ↔ p ∈ P') :
    Grouping P' R :=
  ⟨fun g hg v => (h.members g hg v).trans (hP _), fun p hp => h.covers p ((hP p).mpr hp),
    h.keys_nodup, h.nonempty⟩

/-- A pair whose key is that of the last group joins it. -/
theorem join {R₀ : List (SqlValue × List SqlValue)} {g : SqlValue} {vs : List SqlValue}
    (h : Grouping P (R₀ ++ [(g, vs)])) {a : SqlValue × SqlValue} (hga : g = a.1) :
    Grouping (P ++ [a]) (R₀ ++ [(g, vs ++ [a.2])]) := by
  have hnodup := h.keys_nodup
  simp only [List.map_append, List.map_cons, List.map_nil, List.nodup_append, List.nodup_cons,
    List.mem_map] at hnodup
  -- the other groups have other keys than the pair
  have hother : ∀ g' ∈ R₀, g'.1 ≠ g := fun g' hg' hk =>
    hnodup.2.2 _ ⟨g', hg', rfl⟩ g (List.mem_singleton_self g) hk
  refine ⟨fun g' hg' v => ?_, fun p hp => ?_, ?_, fun g' hg' => ?_⟩
  · rcases List.mem_append.mp hg' with hg' | hg'
    · have hne : (g'.1, v) ≠ a := fun he => hother g' hg' (by rw [hga, ← he])
      rw [h.members g' (List.mem_append_left _ hg') v]
      simp [hne]
    · obtain rfl := List.mem_singleton.mp hg'
      have hmem := h.members (g, vs) (by simp) v
      obtain ⟨a₁, a₂⟩ := a
      subst hga
      simp [hmem]
  · rcases List.mem_append.mp hp with hp | hp
    · obtain ⟨g', hg', hk⟩ := h.covers p hp
      rcases List.mem_append.mp hg' with hg' | hg'
      · exact ⟨g', List.mem_append_left _ hg', hk⟩
      · obtain rfl := List.mem_singleton.mp hg'
        exact ⟨(g, vs ++ [a.2]), by simp, hk⟩
    · obtain rfl := List.mem_singleton.mp hp
      exact ⟨(g, vs ++ [p.2]), by simp, hga⟩
  · simpa using h.keys_nodup
  · rcases List.mem_append.mp hg' with hg' | hg'
    · exact h.nonempty g' (List.mem_append_left _ hg')
    · obtain rfl := List.mem_singleton.mp hg'
      simp

/-- A pair whose key no group has starts a group of its own. -/
theorem start (h : Grouping P R) {a : SqlValue × SqlValue} (hfresh : ∀ g ∈ R, g.1 ≠ a.1) :
    Grouping (P ++ [a]) (R ++ [(a.1, [a.2])]) := by
  -- no pair of `P` has the key of the new one
  have hnone : ∀ v, (a.1, v) ∉ P := fun v hv =>
    let ⟨g, hg, hk⟩ := h.covers _ hv
    hfresh g hg hk
  refine ⟨fun g hg v => ?_, fun p hp => ?_, ?_, fun g hg => ?_⟩
  · rcases List.mem_append.mp hg with hg | hg
    · have hne : (g.1, v) ≠ a := fun he => hfresh g hg (by rw [← he])
      rw [h.members g hg v]
      simp [hne]
    · obtain rfl := List.mem_singleton.mp hg
      obtain ⟨a₁, a₂⟩ := a
      simp only [List.mem_singleton, List.mem_append, Prod.mk.injEq, true_and]
      exact ⟨fun hv => .inr hv, fun hv => hv.resolve_left (hnone v)⟩
  · rcases List.mem_append.mp hp with hp | hp
    · obtain ⟨g, hg, hk⟩ := h.covers p hp
      exact ⟨g, List.mem_append_left _ hg, hk⟩
    · obtain rfl := List.mem_singleton.mp hp
      exact ⟨(p.1, [p.2]), by simp, rfl⟩
  · simp only [List.map_append, List.map_cons, List.map_nil]
    refine List.nodup_append.mpr ⟨h.keys_nodup, List.nodup_singleton _, ?_⟩
    intro k hk k' hk'
    obtain ⟨g, hg, rfl⟩ := List.mem_map.mp hk
    obtain rfl := List.mem_singleton.mp hk'
    exact hfresh g hg
  · rcases List.mem_append.mp hg with hg | hg
    · exact h.nonempty g hg
    · obtain rfl := List.mem_singleton.mp hg
      simp

end Grouping

/-- Grouping pairs sorted by key: the groups are those of the pairs, and the last group has
the key of the last pair. -/
theorem foldl_groupStep : ∀ (P : List (SqlValue × SqlValue)), (∀ p ∈ P, p.1.isKey) →
    P.Pairwise (fun a b => keyLe a b) →
      Grouping P (P.foldl groupStep []) ∧
        (P.foldl groupStep []).getLast?.map (·.1) = P.getLast?.map (·.1) := by
  intro P
  induction P using List.reverseRecOn with
  | nil => exact fun _ _ => ⟨⟨by simp, by simp, by simp, by simp⟩, rfl⟩
  | append_singleton P a ih =>
    intro hkeys hsorted
    obtain ⟨hP, -, hle⟩ := List.pairwise_append.mp hsorted
    obtain ⟨hgroups, hlast⟩ := ih (fun p hp => hkeys p (List.mem_append_left _ hp)) hP
    have ha : a.1.isKey := hkeys a (by simp)
    rw [List.foldl_append, List.foldl_cons, List.foldl_nil]
    generalize P.foldl groupStep [] = R at hgroups hlast
    unfold groupStep
    cases hl : R.getLast? with
    | none =>
      -- nothing grouped yet: no pair came before
      obtain rfl := List.getLast?_eq_none_iff.mp hl
      obtain rfl : P = [] := by
        rw [hl, Option.map_none, eq_comm, Option.map_eq_none_iff, List.getLast?_eq_none_iff] at hlast
        exact hlast
      exact ⟨by simpa using hgroups.start (a := a) (by simp), rfl⟩
    | some last =>
      obtain ⟨g, vs⟩ := last
      obtain ⟨R₀, rfl⟩ := List.getLast?_eq_some_iff.mp hl
      -- the last group has the key of the last pair so far
      obtain ⟨y, hy, hyg⟩ : ∃ y, P.getLast? = some y ∧ y.1 = g := by
        rw [hl, Option.map_some, eq_comm, Option.map_eq_some_iff] at hlast
        exact hlast
      obtain ⟨P₀, rfl⟩ := List.getLast?_eq_some_iff.mp hy
      have hg : g.isKey := hyg ▸ hkeys y (by simp)
      dsimp only
      by_cases heq : compareValues g a.1 = .eq
      · have hga := Sql.eq_of_compareValues_eq hg ha heq
        rw [if_pos (by simp [heq]), List.dropLast_concat]
        exact ⟨hgroups.join hga, by simp [hga]⟩
      · rw [if_neg (by simp [heq])]
        refine ⟨hgroups.start fun g' hg' hk => heq ?_, by simp⟩
        -- a group with the key of the new pair would lie between the last pair and the new one
        obtain ⟨v, hv⟩ := hgroups.key_mem hg'
        rw [hk] at hv
        have hya : compareValues g a.1 ≠ .gt := by
          have := hle y (by simp) a (by simp)
          simpa [keyLe, hyg] using this
        rcases List.mem_append.mp hv with hv | hv
        · have hay : compareValues a.1 g ≠ .gt := by
            have := (List.pairwise_append.mp hP).2.2 _ hv y (by simp)
            simpa [keyLe, hyg] using this
          rw [Sql.eq_of_compareValues_ne_gt hg ha hya hay]
          exact Sql.compareValues_self ha
        · obtain rfl := List.mem_singleton.mp hv
          rw [← hyg]
          exact Sql.compareValues_self ha

/-- Sorting pairs by identifier cells puts them in order. -/
theorem pairwise_mergeSort_keyLe {keys : List (SqlValue × SqlValue)} (hkeys : ∀ p ∈ keys, p.1.isKey) :
    (keys.mergeSort keyLe).Pairwise (fun a b => keyLe a b) := by
  -- the order of keys is that of their bytes, a total order on every pair
  let f : SqlValue × SqlValue → Option (List UInt8) × (SqlValue × SqlValue) := fun p => (p.1.keyBytes, p)
  let le : Option (List UInt8) × (SqlValue × SqlValue) → Option (List UInt8) × (SqlValue × SqlValue) → Bool :=
    fun x y => Sql.compareKeys x.1 y.1 != .gt
  have hsame : ∀ a ∈ keys, ∀ b ∈ keys, keyLe a b = le (f a) (f b) := fun a ha b hb => by
    simp only [keyLe, le, f, Sql.compareValues_of_isKey (hkeys a ha) (hkeys b hb)]
  have hsorted : ((keys.map f).mergeSort le).Pairwise (fun x y => le x y) := by
    refine List.pairwise_mergeSort (fun x y z hxy hyz => ?_) (fun x y => ?_) _
    · simp only [le, bne_iff_ne, ne_eq] at hxy hyz ⊢
      exact Sql.compareKeys_trans hxy hyz
    · simp only [le, bne_iff_ne, ne_eq, Bool.or_eq_true, Sql.compareKeys_swap x.1 y.1]
      cases Sql.compareKeys x.1 y.1 <;> simp [Ordering.swap]
  rw [← List.map_mergeSort hsame, List.pairwise_map] at hsorted
  exact hsorted.imp_of_mem fun ha hb h => (hsame _ (List.mem_mergeSort.mp ha) _ (List.mem_mergeSort.mp hb)).trans h

/-- The groups of pairs keyed by identifier cells. -/
theorem grouping_groups {keys : List (SqlValue × SqlValue)} (hkeys : ∀ p ∈ keys, p.1.isKey) :
    Grouping keys (groups keys) := by
  rw [groups_eq]
  have hsorted := (foldl_groupStep _ (fun p hp => hkeys p (List.mem_mergeSort.mp hp))
    (pairwise_mergeSort_keyLe hkeys)).1
  exact hsorted.of_mem_iff fun _ => List.mem_mergeSort

/-! ### The smallest row id of a group -/

/-- The integers among cells. -/
def intsOf (vs : List SqlValue) : List Int :=
  vs.filterMap fun v => match v with
    | .integer n => some n
    | _ => none

theorem mem_intsOf {vs : List SqlValue} {n : Int} : n ∈ intsOf vs ↔ .integer n ∈ vs := by
  simp only [intsOf, List.mem_filterMap]
  constructor
  · rintro ⟨v, hv, hvn⟩
    cases v <;> simp_all
  · intro h
    exact ⟨_, h, rfl⟩

theorem eq_map_intsOf : ∀ {vs : List SqlValue}, (∀ v ∈ vs, ∃ n, v = .integer n) →
    vs = (intsOf vs).map .integer
  | [], _ => rfl
  | v :: vs, h => by
    obtain ⟨n, rfl⟩ := h v List.mem_cons_self
    simp only [intsOf, List.filterMap_cons, List.map_cons]
    exact congrArg _ (eq_map_intsOf fun w hw => h w (List.mem_cons_of_mem _ hw))

/-- From an integer, the smallest cell is the least integer. -/
theorem foldl_smallest : ∀ (ns : List Int) (m : Int),
    (ns.map SqlValue.integer).foldl (fun m v =>
      if v.isNull then m else if m.isNull || compareValues v m == .lt then v else m) (.integer m) =
        .integer (ns.foldl min m)
  | [], _ => rfl
  | k :: ns, m => by
    simp only [List.map_cons, List.foldl_cons, SqlValue.isNull, Bool.false_or]
    rw [← foldl_smallest ns (min m k)]
    congr 1
    by_cases hk : k < m
    · have hlt : compareValues (.integer k) (.integer m) = .lt := Int.compare_eq_lt.mpr hk
      simp [hlt, Int.min_def, show ¬m ≤ k by omega]
    · have hnlt : compareValues (.integer k) (.integer m) ≠ .lt := fun h => hk (Int.compare_eq_lt.mp h)
      simp [hnlt, show m ≤ k by omega]

/-- The smallest of some integers is their least. -/
theorem smallest_eq {ns : List Int} {m : Int} (h : ns.min? = some m) :
    smallest (ns.map SqlValue.integer) = .integer m := by
  cases ns with
  | nil => simp at h
  | cons n ns =>
    rw [List.min?_cons', Option.some.injEq] at h
    rw [← h, smallest, List.map_cons, List.foldl_cons]
    exact foldl_smallest ns n

/-! ### Row ids as text -/

/-- Different naturals have different decimal texts. -/
theorem nat_repr_inj {m n : Nat} (h : m.repr = n.repr) : m = n := by
  have hdigits : Nat.toDigits 10 m = Nat.toDigits 10 n := by
    rw [← Nat.toList_repr, ← Nat.toList_repr, h]
  rw [← Nat.ofDigitChars_ten_toDigits (n := m), ← Nat.ofDigitChars_ten_toDigits (n := n), hdigits]

/-- A decimal text never starts with a minus sign. -/
theorem minus_not_mem_repr (n : Nat) : '-' ∉ n.repr.toList := fun h => by
  rw [Nat.toList_repr] at h
  have := Nat.isDigit_of_mem_toDigits (by decide) (by decide) h
  simp at this

/-- Different integers have different texts. -/
theorem int_toString_inj {m n : Int} (h : toString m = toString n) : m = n := by
  have hlist := congrArg String.toList h
  cases m <;> cases n <;>
    simp only [toString, Int.repr, String.toList_append] at hlist
  · exact congrArg _ (nat_repr_inj (String.toList_inj.mp hlist))
  · rename_i a b
    have : '-' ∈ a.repr.toList := by rw [hlist]; simp
    exact absurd this (minus_not_mem_repr a)
  · rename_i a b
    have : '-' ∈ b.repr.toList := by rw [← hlist]; simp
    exact absurd this (minus_not_mem_repr b)
  · have := nat_repr_inj (String.toList_inj.mp (List.append_cancel_left hlist))
    rw [Nat.succ_inj.mp this]

/-! ### Reading row ids back -/

/-- The row id and the identifier a group of rows stands for. -/
def naturalOf (g : SqlValue × List SqlValue) : String × String :=
  ((match smallest g.2 with
    | .integer n => toString n
    | _ => ""), g.1.keyText)

/-- A group of row ids stands for its least one. -/
theorem naturalOf_eq {g : SqlValue × List SqlValue} {m : Int} (hints : ∀ v ∈ g.2, ∃ n, v = .integer n)
    (hm : (intsOf g.2).min? = some m) : naturalOf g = (toString m, g.1.keyText) := by
  rw [naturalOf, eq_map_intsOf hints, smallest_eq hm]

/-- A loop whose every turn goes on normally is a fold. -/
theorem forIn_except_yield {α β ε : Type} {l : List α} {f : α → β → Except ε (ForInStep β)}
    (g : α → β → β) (h : ∀ a ∈ l, ∀ b, f a b = .ok (.yield (g a b))) (init : β) :
    forIn l init f = .ok (l.foldl (fun b a => g a b) init) := by
  induction l generalizing init with
  | nil => rfl
  | cons a l ih =>
    rw [List.forIn_cons, h a List.mem_cons_self init]
    exact ih (fun a' ha' => h a' (List.mem_cons_of_mem _ ha')) _

/-- When groups stand for different row ids, each keeps its entry. -/
theorem foldl_naturalOf : ∀ (G : List (SqlValue × List SqlValue)),
    (G.map fun g => (naturalOf g).1).Nodup →
      G.foldl (fun out g => out.filter (fun x => x.1 != (naturalOf g).1) ++ [naturalOf g]) [] =
        G.map naturalOf := by
  intro G
  induction G using List.reverseRecOn with
  | nil => exact fun _ => rfl
  | append_singleton G g ih =>
    intro hnodup
    rw [List.map_append, List.nodup_append] at hnodup
    rw [List.foldl_append, List.foldl_cons, List.foldl_nil, ih hnodup.1, List.map_append]
    congr 1
    refine List.filter_eq_self.mpr fun x hx => ?_
    obtain ⟨g', hg', rfl⟩ := List.mem_map.mp hx
    simpa using hnodup.2.2 _ (List.mem_map_of_mem hg') _ (List.mem_singleton_self _)

/-- In a list whose keys differ, the entry of a key is the one it is paired with. -/
theorem lookup_eq_some_iff_mem {l : List (String × String)} (hnodup : (l.map (·.1)).Nodup)
    {a b : String} : l.lookup a = some b ↔ (a, b) ∈ l := by
  constructor
  · intro h
    obtain ⟨l₁, l₂, rfl, -⟩ := List.lookup_eq_some_iff.mp h
    simp
  · intro h
    have hsome : (l.lookup a).isSome := List.lookup_isSome_iff.mpr ⟨(a, b), h, by simp⟩
    obtain ⟨b', hb'⟩ := Option.isSome_iff_exists.mp hsome
    have hmem : (a, b') ∈ l := by
      obtain ⟨l₁, l₂, hl, -⟩ := List.lookup_eq_some_iff.mp hb'
      simp [hl]
    have := List.inj_on_of_nodup_map hnodup h hmem rfl
    rw [hb', ← (Prod.mk.inj this).2]

/-! ### Tables the reader can resolve -/

/-- The identifier and row id cells of each row of a table, as the reader pairs them. -/
def rowPairs (t : Table) (idIndex j : Nat) : List (SqlValue × SqlValue) :=
  t.rows.map fun row => (row.2.getD j .null, row.2.getD idIndex .null)

theorem mem_rowPairs {t : Table} {idIndex j : Nat} {a b : SqlValue} :
    (a, b) ∈ rowPairs t idIndex j ↔
      ∃ row ∈ t.rows, row.2.getD j .null = a ∧ row.2.getD idIndex .null = b := by
  simp [rowPairs]

/-- A table whose row id cells are distinct integers and whose identifier cells are texts or
nothing, as written tables are. -/
structure Readable (t : Table) (idIndex j : Nat) : Prop where
  rowids : ∀ row ∈ t.rows, ∃ n : Int, row.2.getD idIndex .null = .integer n
  keys : ∀ row ∈ t.rows, (row.2.getD j .null).isKey
  distinct : (t.rows.map fun row => row.2.getD idIndex .null).Nodup

namespace Readable

variable {t : Table} {idIndex j : Nat}

/-- The groups the reader forms. -/
theorem grouping (h : Readable t idIndex j) :
    Grouping (rowPairs t idIndex j) (groups (rowPairs t idIndex j)) :=
  grouping_groups fun p hp => by
    obtain ⟨row, hrow, rfl⟩ := List.mem_map.mp hp
    exact h.keys row hrow

/-- Two rows with the same row id are the same row. -/
theorem row_eq (h : Readable t idIndex j) {row row' : Int × List SqlValue} (hrow : row ∈ t.rows)
    (hrow' : row' ∈ t.rows) (hid : row.2.getD idIndex .null = row'.2.getD idIndex .null) : row = row' :=
  List.inj_on_of_nodup_map h.distinct hrow hrow' hid

/-- The identifier of the row of a row id. -/
theorem key_eq (h : Readable t idIndex j) {a a' b : SqlValue} (hab : (a, b) ∈ rowPairs t idIndex j)
    (hab' : (a', b) ∈ rowPairs t idIndex j) : a = a' := by
  obtain ⟨row, hrow, rfl, hb⟩ := mem_rowPairs.mp hab
  obtain ⟨row', hrow', rfl, hb'⟩ := mem_rowPairs.mp hab'
  rw [h.row_eq hrow hrow' (hb.trans hb'.symm)]

section Groups

variable (h : Readable t idIndex j) {g : SqlValue × List SqlValue}
  (hg : g ∈ groups (rowPairs t idIndex j))
include h hg

/-- The members of a group are row ids. -/
theorem ints : ∀ v ∈ g.2, ∃ n, v = .integer n := fun v hv => by
  obtain ⟨row, hrow, -, hb⟩ := mem_rowPairs.mp ((h.grouping.members g hg v).mp hv)
  obtain ⟨n, hn⟩ := h.rowids row hrow
  exact ⟨n, hb.symm.trans hn⟩

/-- Every group has a least row id. -/
theorem least : ∃ m, (intsOf g.2).min? = some m := by
  obtain ⟨v, hv⟩ := List.exists_mem_of_ne_nil _ (h.grouping.nonempty g hg)
  obtain ⟨n, rfl⟩ := h.ints hg v hv
  exact Option.isSome_iff_exists.mp (List.isSome_min?_of_mem (mem_intsOf.mpr hv))

/-- The identifier of a group is a text or nothing. -/
theorem key : g.1.isKey := by
  obtain ⟨v, hv⟩ := h.grouping.key_mem hg
  obtain ⟨row, hrow, ha, -⟩ := mem_rowPairs.mp hv
  exact ha ▸ h.keys row hrow

end Groups

/-- Different groups stand for different row ids. -/
theorem least_inj (h : Readable t idIndex j) {g g' : SqlValue × List SqlValue}
    (hg : g ∈ groups (rowPairs t idIndex j)) (hg' : g' ∈ groups (rowPairs t idIndex j)) {m : Int}
    (hm : (intsOf g.2).min? = some m) (hm' : (intsOf g'.2).min? = some m) : g = g' := by
  have hG := h.grouping
  -- both least row ids are that of one row, whose identifier both groups have
  have hmem := (hG.members g hg _).mp (mem_intsOf.mp (List.min?_mem hm))
  have hmem' := (hG.members g' hg' _).mp (mem_intsOf.mp (List.min?_mem hm'))
  exact List.inj_on_of_nodup_map hG.keys_nodup hg hg' (h.key_eq hmem hmem')

/-- The groups stand for different row ids, written as different texts. -/
theorem nodup_naturalOf (h : Readable t idIndex j) :
    ((groups (rowPairs t idIndex j)).map fun g => (naturalOf g).1).Nodup := by
  refine List.Nodup.map_on (fun g hg g' hg' hsame => ?_) (List.Nodup.of_map _ h.grouping.keys_nodup)
  obtain ⟨m, hm⟩ := h.least hg
  obtain ⟨m', hm'⟩ := h.least hg'
  rw [naturalOf_eq (h.ints hg) hm, naturalOf_eq (h.ints hg') hm'] at hsame
  rw [int_toString_inj hsame] at hm
  exact h.least_inj hg hg' hm hm'

end Readable

/-- The reader's loop over the groups of a readable table. -/
theorem naturals_eq_foldl {db : Database} {k : Kind} {column : String} {t : Table} {idIndex j : Nat}
    (hcol : k.idColumn? = some column) (ht : db.table? k.tableName = some t) (hne : t.columns ≠ [])
    (hid : t.columnIndex? "id" = some idIndex) (hj : t.columnIndex? column = some j)
    (h : Readable t idIndex j) :
    db.naturals k = .ok ((groups (rowPairs t idIndex j)).foldl
      (fun out g => out.filter (fun x => x.1 != (naturalOf g).1) ++ [naturalOf g]) []) := by
  simp only [naturals, hcol, ht, hid, hj, List.isEmpty_iff, hne, if_false]
  rw [forIn_except_yield (fun g out => out.filter (fun x => x.1 != (naturalOf g).1) ++ [naturalOf g])]
  · rfl
  intro g hg out
  obtain ⟨m, hm⟩ := h.least hg
  have hsmall : smallest g.2 = .integer m := by
    rw [eq_map_intsOf (h.ints hg), smallest_eq hm]
  have hkey := h.key hg
  rw [naturalOf_eq (h.ints hg) hm, hsmall]
  -- the identifier of a group is a text or nothing, which the loop takes as it is
  obtain ⟨key, vs⟩ := g
  cases key with
  | null | text s => rfl
  | _ => simp [SqlValue.isKey] at hkey

/-- Reading the identifiers of a readable table back: a row id resolves to the identifier of
its row exactly when it is the least row id among the rows of that identifier, and to nothing
otherwise. -/
theorem naturals_lookup_rowid {db : Database} {k : Kind} {column : String} {t : Table}
    {idIndex j : Nat} (hcol : k.idColumn? = some column) (ht : db.table? k.tableName = some t)
    (hne : t.columns ≠ []) (hid : t.columnIndex? "id" = some idIndex)
    (hj : t.columnIndex? column = some j) (h : Readable t idIndex j) :
    ∃ out, db.naturals k = .ok out ∧ ∀ row ∈ t.rows, ∀ n : Int, row.2.getD idIndex .null = .integer n →
      ∀ x, out.lookup (toString n) = some x ↔
        (∀ row' ∈ t.rows, row'.2.getD j .null = row.2.getD j .null →
          ∀ n' : Int, row'.2.getD idIndex .null = .integer n' → n ≤ n') ∧
        x = (row.2.getD j .null).keyText := by
  have hG := h.grouping
  set G := groups (rowPairs t idIndex j) with hGdef
  -- the groups stand for different row ids, so the loop keeps every entry
  have hnodup : (G.map fun g => (naturalOf g).1).Nodup := h.nodup_naturalOf
  refine ⟨G.map naturalOf, by rw [naturals_eq_foldl hcol ht hne hid hj h, foldl_naturalOf G hnodup], ?_⟩
  intro row hrow n hn x
  have hkeys : ((G.map naturalOf).map (·.1)).Nodup := by
    rw [List.map_map]
    exact hnodup
  rw [lookup_eq_some_iff_mem hkeys, List.mem_map]
  have hrowP : (row.2.getD j .null, .integer n) ∈ rowPairs t idIndex j := mem_rowPairs.mpr ⟨row, hrow, rfl, hn⟩
  -- every row of the identifier lies in the group of the row
  have hin : ∀ {g}, g ∈ G → g.1 = row.2.getD j .null → ∀ row' ∈ t.rows,
      row'.2.getD j .null = row.2.getD j .null → ∀ n' : Int, row'.2.getD idIndex .null = .integer n' →
        n' ∈ intsOf g.2 := fun hg hgk row' hrow' hk n' hn' =>
    mem_intsOf.mpr ((hG.members _ hg _).mpr (hgk ▸ mem_rowPairs.mpr ⟨row', hrow', hk, hn'⟩))
  constructor
  · rintro ⟨g, hg, hnat⟩
    obtain ⟨m, hm⟩ := h.least hg
    rw [naturalOf_eq (h.ints hg) hm, Prod.mk.injEq] at hnat
    obtain ⟨hmn, rfl⟩ := hnat
    rw [int_toString_inj hmn] at hm
    -- the group's least row id is that of the row, so the group is the row's
    have hgk : g.1 = row.2.getD j .null :=
      h.key_eq ((hG.members g hg _).mp (mem_intsOf.mp (List.min?_mem hm))) hrowP
    refine ⟨fun row' hrow' hk n' hn' => ?_, by rw [hgk]⟩
    exact (List.min?_eq_some_iff.mp hm).2 n' (hin hg hgk row' hrow' hk n' hn')
  · rintro ⟨hleast, rfl⟩
    obtain ⟨g, hg, hgk⟩ := hG.covers _ hrowP
    obtain ⟨m, hm⟩ := h.least hg
    -- the least row id of the group belongs to a row of the identifier, so it is no smaller
    have hmn : m = n := by
      have hle : m ≤ n := (List.min?_eq_some_iff.mp hm).2 n (hin hg hgk row hrow rfl n hn)
      obtain ⟨row', hrow', hk, hm'⟩ :=
        mem_rowPairs.mp ((hG.members g hg _).mp (mem_intsOf.mp (List.min?_mem hm)))
      have hge : n ≤ m := hleast row' hrow' (hk.trans hgk) m hm'
      omega
    exact ⟨g, hg, by rw [naturalOf_eq (h.ints hg) hm, hmn, hgk]⟩

end Sql.Database

end TransitFeed
