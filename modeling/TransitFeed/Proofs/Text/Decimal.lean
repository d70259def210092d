import Mathlib.Algebra.Group.Nat.Defs
import TransitFeed.Proofs.Value.ClockText

/-!
# Integers read back from their decimal text

An integer is written by `toString`: its decimal digits, after a minus sign when it is
negative. The integer reader accumulates the digits from the left and checks the range at
every step, so the text of an integer of a range that holds zero reads back as the integer:
every value on the way lies between zero and the integer.

Main statement: `readDecimal_toString`. The digit facts here (the value of digits folded from
the left, their bound, the first digit of a positive natural) serve the other readers of
decimal texts too.
-/

namespace TransitFeed

/-! ### Decimal digits -/

/-- Decimal digits folded from the left into an integer give their value. -/
theorem foldl_digits (ds : List Char) (hds : ∀ c ∈ ds, c.isDigit) (init : Nat) :
    ds.foldl (fun (acc : Int) c => acc * 10 + ((c.toNat : Int) - ('0'.toNat : Int))) (init : Int) =
      (Nat.ofDigitChars 10 ds init : Int) := by
  induction ds generalizing init with
  | nil => rfl
  | cons c rest ih =>
    have hc : '0'.toNat ≤ c.toNat := (Char.isDigit_iff_toNat.mp (hds c List.mem_cons_self)).1
    have hstep : (init : Int) * 10 + ((c.toNat : Int) - ('0'.toNat : Int)) =
        ((10 * init + (c.toNat - '0'.toNat) : Nat) : Int) := by
      simp only [Char.reduceToNat] at hc ⊢
      push_cast [hc]
      omega
    rw [List.foldl_cons, hstep, Nat.ofDigitChars_cons]
    exact ih (fun x hx => hds x (List.mem_cons_of_mem _ hx)) _

/-- Digits after a value make it less than the value plus one, shifted by their number. -/
theorem ofDigitChars_lt (ds : List Char) (hds : ∀ c ∈ ds, c.isDigit) (init : Nat) :
    Nat.ofDigitChars 10 ds init < (init + 1) * 10 ^ ds.length := by
  induction ds generalizing init with
  | nil => simp
  | cons c rest ih =>
    have hc := Char.isDigit_iff_toNat.mp (hds c List.mem_cons_self)
    simp only [Char.reduceToNat] at hc
    have hnext := ih (fun x hx => hds x (List.mem_cons_of_mem _ hx)) (10 * init + (c.toNat - '0'.toNat))
    rw [Nat.ofDigitChars_cons, List.length_cons, Nat.pow_succ]
    calc _ < (10 * init + (c.toNat - '0'.toNat) + 1) * 10 ^ rest.length := hnext
      _ ≤ (init + 1) * 10 * 10 ^ rest.length := by
        apply Nat.mul_le_mul_right
        simp only [Char.reduceToNat]
        omega
      _ = (init + 1) * (10 ^ rest.length * 10) := by rw [Nat.mul_assoc, Nat.mul_comm 10]

/-- The decimal digits of a positive natural do not start with `0`. -/
theorem toDigits_head_ne_zero {k : Nat} (hk : 0 < k) {d : Char} {ds : List Char}
    (h : Nat.toDigits 10 k = d :: ds) : d ≠ '0' := by
  rintro rfl
  have hval : Nat.ofDigitChars 10 ds 0 = k := by
    rw [← Nat.ofDigitChars_ten_toDigits (n := k), h, Nat.ofDigitChars_cons]
    rfl
  have hds : ∀ c ∈ ds, c.isDigit := fun c hc =>
    Nat.isDigit_of_mem_toDigits (b := 10) (n := k) (by decide) (by decide)
      (by rw [h]; exact List.mem_cons_of_mem _ hc)
  have hlt := ofDigitChars_lt ds hds 0
  rw [hval, Nat.zero_add, Nat.one_mul] at hlt
  -- a leading zero would leave the value fewer digits than its decimal text has
  cases ds with
  | nil => simp at hval; omega
  | cons e more =>
    have hshort := (Nat.length_toDigits_le_iff (by decide) (by simp)).mpr hlt
    rw [h] at hshort
    simp only [List.length_cons] at hshort
    omega

/-! ### Integers of a range -/

/-- A text that starts with neither sign is read by accumulating all its characters. -/
theorem readInteger_of_unsigned (r : IntRange) (radix : Nat) {s : String} {c : Char}
    {rest : List Char} (hs : s.toList = c :: rest) (hplus : c ≠ '+') (hminus : c ≠ '-') :
    readInteger r radix s = accumulate r radix false 0 (c :: rest) := by
  unfold readInteger
  rw [hs]
  split <;> simp_all

/-- A minus sign followed by characters is read by accumulating them downwards, in a range
with negative members. -/
theorem readInteger_of_minus (r : IntRange) (radix : Nat) {s : String} {c : Char}
    {rest : List Char} (hs : s.toList = '-' :: c :: rest) (hneg : r.lo < 0) :
    readInteger r radix s = accumulate r radix true 0 (c :: rest) := by
  unfold readInteger
  rw [hs]
  simp [hneg]

/-- Decimal digits accumulate upwards to their value while it stays in the range: every
value on the way lies between the start and the last. -/
theorem accumulate_up (r : IntRange) (cs : List Char) (hcs : ∀ c ∈ cs, c.isDigit) (acc : Nat)
    (hlo : r.lo ≤ acc) (hhi : (Nat.ofDigitChars 10 cs acc : Int) ≤ r.hi) :
    accumulate r 10 false acc cs = .ok (Nat.ofDigitChars 10 cs acc : Nat) := by
  induction cs generalizing acc with
  | nil => rfl
  | cons c rest ih =>
    rw [Nat.ofDigitChars_cons] at hhi ⊢
    have hnext := le_ofDigitChars rest (10 * acc + (c.toNat - '0'.toNat))
    have hval : (acc : Int) * ((10 : Nat) : Int) + ((c.toNat - '0'.toNat : Nat) : Int) =
        ((10 * acc + (c.toNat - '0'.toNat) : Nat) : Int) := by
      push_cast
      omega
    have hcheck := IntRange.check_of_le (r := r)
      (n := ((10 * acc + (c.toNat - '0'.toNat) : Nat) : Int)) (by omega) (by omega)
    simp only [accumulate, digitIn_ten_of_isDigit (hcs c List.mem_cons_self), Bool.false_eq_true,
      ↓reduceIte, hval, hcheck]
    exact ih (fun x hx => hcs x (List.mem_cons_of_mem _ hx)) _ (by omega) hhi

/-- Decimal digits accumulate downwards to their value, negated, while it stays in the range. -/
theorem accumulate_down (r : IntRange) (cs : List Char) (hcs : ∀ c ∈ cs, c.isDigit) (acc : Nat)
    (hhi : -(acc : Int) ≤ r.hi) (hlo : r.lo ≤ -(Nat.ofDigitChars 10 cs acc : Int)) :
    accumulate r 10 true (-(acc : Int)) cs = .ok (-(Nat.ofDigitChars 10 cs acc : Int)) := by
  induction cs generalizing acc with
  | nil => rfl
  | cons c rest ih =>
    rw [Nat.ofDigitChars_cons] at hlo ⊢
    have hnext := le_ofDigitChars rest (10 * acc + (c.toNat - '0'.toNat))
    have hval : -(acc : Int) * ((10 : Nat) : Int) - ((c.toNat - '0'.toNat : Nat) : Int) =
        -((10 * acc + (c.toNat - '0'.toNat) : Nat) : Int) := by
      push_cast
      omega
    have hcheck := IntRange.check_of_le (r := r)
      (n := -((10 * acc + (c.toNat - '0'.toNat) : Nat) : Int)) (by omega) (by omega)
    simp only [accumulate, digitIn_ten_of_isDigit (hcs c List.mem_cons_self), ↓reduceIte, hval,
      hcheck]
    exact ih (fun x hx => hcs x (List.mem_cons_of_mem _ hx)) _ (by omega) hlo

/-- An integer of a range that holds zero reads back from its decimal text. -/
theorem readDecimal_toString {r : IntRange} (hzero : r.lo ≤ 0 ∧ 0 ≤ r.hi) {n : Int}
    (hlo : r.lo ≤ n) (hhi : n ≤ r.hi) : readDecimal r (toString n) = .ok n := by
  have hdigits : ∀ k : Nat, ∀ c ∈ Nat.toDigits 10 k, c.isDigit := fun k c hc =>
    Nat.isDigit_of_mem_toDigits (by decide) (by decide) hc
  unfold readDecimal
  cases n with
  | ofNat k =>
    obtain ⟨c, rest, hcs⟩ := List.exists_cons_of_ne_nil (Nat.toDigits_ne_nil (n := k) (b := 10))
    have hs : (toString (Int.ofNat k)).toList = c :: rest := by
      simp [toString, Int.repr, Nat.repr, hcs]
    have hc := hdigits k c (by rw [hcs]; exact List.mem_cons_self)
    rw [readInteger_of_digit r 10 hs hc, ← hcs]
    have hacc := accumulate_up r (Nat.toDigits 10 k) (hdigits k) 0 (by simpa using hzero.1)
      (by rw [Nat.ofDigitChars_ten_toDigits]; exact hhi)
    rw [Int.natCast_zero] at hacc
    rw [hacc, Nat.ofDigitChars_ten_toDigits]
    rfl
  | negSucc k =>
    obtain ⟨c, rest, hcs⟩ :=
      List.exists_cons_of_ne_nil (Nat.toDigits_ne_nil (n := k + 1) (b := 10))
    have hs : (toString (Int.negSucc k)).toList = '-' :: c :: rest := by
      simp [toString, Int.repr, Nat.repr, hcs]
    rw [readInteger_of_minus r 10 hs (by omega), ← hcs]
    have hacc := accumulate_down r (Nat.toDigits 10 (k + 1)) (hdigits (k + 1)) 0
      (by simpa using hzero.2) (by rw [Nat.ofDigitChars_ten_toDigits]; exact hlo)
    rw [Int.natCast_zero, Int.neg_zero] at hacc
    rw [hacc, Nat.ofDigitChars_ten_toDigits]
    rfl

end TransitFeed
