import TransitFeed.Value.Clock

/-!
# Times read back from their text

A time is written as hours, minutes and seconds with at least two digits each, and read from
a text of 7 to 9 characters. So the text of a time reads back as that time exactly when the
time is below 1000 hours; from 1000 hours on, the hours take four digits and the text is too
long to read.

The digits of each part are read by the unsigned 32-bit integer reader, which reads decimal
digits as their value while the value fits. Main statement:
`Time.text_reads_back_iff_below_1000_hours`.
-/

namespace TransitFeed

/-! ### Reading decimal digits -/

/-- A decimal digit is a digit in radix ten, of its value. -/
theorem digitIn_ten_of_isDigit {c : Char} (h : c.isDigit) :
    digitIn 10 c = some (c.toNat - '0'.toNat) := by
  have hn := Char.isDigit_iff_toNat.mp h
  have hc : '0' ≤ c ∧ c ≤ '9' := by
    simp only [Char.le_def, UInt32.le_iff_toNat_le, Char.toNat_val]
    exact hn
  have hlt : c.toNat - '0'.toNat < 10 := by
    have := hn.2
    simp only [Char.reduceToNat] at this ⊢
    omega
  simp only [digitIn, hc, decide_true, Bool.and_self, ↓reduceIte, hlt]

/-- A value between the bounds of a range passes its check. -/
theorem IntRange.check_of_le {r : IntRange} {n : Int} (hlo : r.lo ≤ n) (hhi : n ≤ r.hi) :
    r.check n = .ok n := by
  unfold IntRange.check
  rw [if_neg (by omega), if_neg (by omega)]

/-- Digits after a value only make it larger. -/
theorem le_ofDigitChars (cs : List Char) (init : Nat) : init ≤ Nat.ofDigitChars 10 cs init := by
  induction cs generalizing init with
  | nil => simp
  | cons c rest ih =>
    rw [Nat.ofDigitChars_cons]
    exact Nat.le_trans (by omega) (ih _)

/-- Decimal digits accumulate to their value when it fits an unsigned 32-bit integer: every value
on the way is at most the last. -/
theorem accumulate_digits (cs : List Char) (hcs : ∀ c ∈ cs, c.isDigit) (acc : Nat)
    (hle : Nat.ofDigitChars 10 cs acc ≤ 4294967295) :
    accumulate IntRange.u32 10 false acc cs = .ok (Nat.ofDigitChars 10 cs acc : Nat) := by
  induction cs generalizing acc with
  | nil => rfl
  | cons c rest ih =>
    rw [Nat.ofDigitChars_cons] at hle ⊢
    have hnext := le_ofDigitChars rest (10 * acc + (c.toNat - '0'.toNat))
    have hval : (acc : Int) * ((10 : Nat) : Int) + ((c.toNat - '0'.toNat : Nat) : Int) =
        ((10 * acc + (c.toNat - '0'.toNat) : Nat) : Int) := by
      push_cast
      omega
    have hcheck := IntRange.check_of_le (r := IntRange.u32)
      (n := ((10 * acc + (c.toNat - '0'.toNat) : Nat) : Int))
      (by show (0 : Int) ≤ _; omega) (by show _ ≤ (4294967295 : Int); omega)
    simp only [accumulate, digitIn_ten_of_isDigit (hcs c List.mem_cons_self), Bool.false_eq_true,
      ↓reduceIte, hval, hcheck]
    exact ih (fun x hx => hcs x (List.mem_cons_of_mem _ hx)) _ hle

/-- A text that starts with a digit is read by accumulating all its digits. -/
theorem readInteger_of_digit (r : IntRange) (radix : Nat) {s : String} {c : Char} {rest : List Char}
    (hs : s.toList = c :: rest) (hc : c.isDigit) :
    readInteger r radix s = accumulate r radix false 0 (c :: rest) := by
  unfold readInteger
  rw [hs]
  split
  · rename_i h
    cases h
  -- a text that starts with a digit starts with no sign
  · rename_i h
    cases h
    exact absurd hc (by decide)
  · rename_i h
    cases h
    exact absurd hc (by decide)
  · rename_i h
    cases h
    exact absurd hc (by decide)
  · rename_i h
    cases h
    exact absurd hc (by decide)
  · rfl

namespace Time

/-! ### The parts of a time -/

/-- Digits that fit an unsigned 32-bit integer read as their value. -/
theorem part?_digits {cs : List Char} (hne : cs ≠ []) (hcs : ∀ c ∈ cs, c.isDigit)
    (hle : Nat.ofDigitChars 10 cs 0 ≤ 4294967295) : part? cs = some (Nat.ofDigitChars 10 cs 0) := by
  obtain ⟨c, rest, rfl⟩ := List.exists_cons_of_ne_nil hne
  unfold part? readDecimal
  rw [readInteger_of_digit _ _ (String.toList_ofList) (hcs c List.mem_cons_self)]
  have hacc := accumulate_digits _ hcs 0 hle
  rw [Int.natCast_zero] at hacc
  rw [hacc]
  exact congrArg some (Int.toNat_natCast _)

/-- The characters of a natural written with at least two digits. -/
theorem toList_twoDigits (n : Nat) :
    (twoDigits n).toList = (if n < 10 then ['0'] else []) ++ Nat.toDigits 10 n := by
  unfold twoDigits
  split <;> simp

/-- The characters of a natural written with at least two digits are digits. -/
theorem twoDigits_isDigit (n : Nat) : ∀ c ∈ (twoDigits n).toList, c.isDigit := by
  rw [toList_twoDigits]
  intro c hc
  rcases List.mem_append.mp hc with hzero | hdigit
  · split at hzero
    · rw [List.mem_singleton.mp hzero]
      rfl
    · cases hzero
  · exact Nat.isDigit_of_mem_toDigits (by decide) (by decide) hdigit

/-- A natural written with at least two digits reads back as itself: the leading zero adds
nothing. -/
theorem ofDigitChars_twoDigits (n : Nat) : Nat.ofDigitChars 10 (twoDigits n).toList 0 = n := by
  rw [toList_twoDigits, Nat.ofDigitChars_append]
  split <;> simp [Nat.ofDigitChars_cons]

/-- Below 100 a natural is written with two digits. -/
theorem length_twoDigits_of_lt {n : Nat} (h : n < 100) : (twoDigits n).toList.length = 2 := by
  rw [toList_twoDigits]
  split
  · rename_i hn
    simp [Nat.toDigits_of_lt_base hn]
  · rename_i hn
    have hle := (Nat.length_toDigits_le_iff (b := 10) (n := n) (by decide) (by decide : 0 < 2)).mpr h
    have hgt : ¬ (Nat.toDigits 10 n).length ≤ 1 := fun h1 =>
      hn ((Nat.length_toDigits_le_iff (by decide) (by decide)).mp h1)
    simp only [List.nil_append]
    omega

/-- The hours of a time take at most three characters exactly below 1000 hours. -/
theorem length_twoDigits_le_three (n : Nat) : (twoDigits n).toList.length ≤ 3 ↔ n < 1000 := by
  rw [toList_twoDigits]
  split
  · rename_i hn
    simp [Nat.toDigits_of_lt_base hn]
    omega
  · simpa using Nat.length_toDigits_le_iff (b := 10) (n := n) (by decide) (by decide : 0 < 3)

/-- A natural is written with at least one character. -/
theorem one_le_length_twoDigits (n : Nat) : 1 ≤ (twoDigits n).toList.length := by
  rw [toList_twoDigits, List.length_append]
  have := Nat.length_toDigits_pos (b := 10) (n := n)
  omega

/-- A natural that fits an unsigned 32-bit integer reads back from its text with at least two
digits. -/
theorem part?_twoDigits {n : Nat} (hn : n ≤ 4294967295) : part? (twoDigits n).toList = some n := by
  have hne : (twoDigits n).toList ≠ [] := List.ne_nil_of_length_pos (one_le_length_twoDigits n)
  rw [part?_digits hne (twoDigits_isDigit n) (by rw [ofDigitChars_twoDigits]; exact hn),
    ofDigitChars_twoDigits]

/-! ### The text of a time -/

/-- The text of a time: hours, a colon, minutes, a colon and seconds. -/
theorem toList_text (t : Time) :
    t.text.toList = (twoDigits (t.seconds / 3600)).toList ++ ':' ::
      ((twoDigits (t.seconds % 3600 / 60)).toList ++ ':' :: (twoDigits (t.seconds % 60)).toList) := by
  simp [text]

/-- The reader takes apart a text of one to three characters of hours, two of minutes and two
of seconds, each part read as an unsigned integer. -/
theorem read?_of_parts {s : String} {H M S : List Char} {h m sec : Nat}
    (hs : s.toList = H ++ ':' :: (M ++ ':' :: S)) (hascii : ∀ c ∈ s.toList, c.toNat < 128)
    (hH : 1 ≤ H.length ∧ H.length ≤ 3) (hM : M.length = 2) (hS : S.length = 2)
    (hh : part? H = some h) (hm : part? M = some m) (hsec : part? S = some sec) :
    read? s = some ⟨h * 3600 + m * 60 + sec⟩ := by
  obtain ⟨m1, m2, rfl⟩ : ∃ a b, M = [a, b] := by
    match M, hM with
    | [a, b], _ => exact ⟨a, b, rfl⟩
  obtain ⟨s1, s2, rfl⟩ : ∃ a b, S = [a, b] := by
    match S, hS with
    | [a, b], _ => exact ⟨a, b, rfl⟩
  have hlen : (H ++ ':' :: ([m1, m2] ++ [':', s1, s2])).length = H.length + 6 := by simp
  have hall : (H ++ ':' :: ([m1, m2] ++ [':', s1, s2])).all (fun c => c.toNat < 128) = true := by
    rw [← hs, List.all_eq_true]
    exact fun c hc => decide_eq_true (hascii c hc)
  -- the two colons sit right after the hours and after the minutes
  have hcolons : (H ++ ':' :: ([m1, m2] ++ [':', s1, s2]))[H.length + 6 - 3]? = some ':' ∧
      (H ++ ':' :: ([m1, m2] ++ [':', s1, s2]))[H.length + 6 - 6]? = some ':' := by
    constructor
    · rw [List.getElem?_append_right (by omega)]
      simp only [show H.length + 6 - 3 - H.length = 3 by omega]
      rfl
    · rw [List.getElem?_append_right (by omega)]
      simp
  have hhours : List.take (H.length + 6 - 6) (H ++ ':' :: ([m1, m2] ++ [':', s1, s2])) = H := by
    simp
  have hminutes : List.take 2 (List.drop (H.length + 6 - 5) (H ++ ':' :: ([m1, m2] ++ [':', s1, s2]))) =
      [m1, m2] := by
    rw [show H.length + 6 - 5 = H.length + 1 by omega, List.drop_append,
      List.drop_eq_nil_of_le (by omega), Nat.add_sub_cancel_left]
    rfl
  have hseconds : List.drop (H.length + 6 - 2) (H ++ ':' :: ([m1, m2] ++ [':', s1, s2])) = [s1, s2] := by
    rw [show H.length + 6 - 2 = H.length + 4 by omega, List.drop_append,
      List.drop_eq_nil_of_le (by omega), Nat.add_sub_cancel_left]
    rfl
  unfold read?
  simp only [hs, hlen, hall, hcolons, hhours, hminutes, hseconds, hh, hm, hsec]
  rw [if_neg (by simp; omega), if_neg (by simp)]

/-- The text of a time is ASCII: digits and colons. -/
theorem text_ascii (t : Time) : ∀ c ∈ t.text.toList, c.toNat < 128 := by
  have hdigit : ∀ n, ∀ c ∈ (twoDigits n).toList, c.toNat < 128 := fun n c hc => by
    have := (Char.isDigit_iff_toNat.mp (twoDigits_isDigit n c hc)).2
    simp only [Char.reduceToNat] at this
    omega
  rw [toList_text]
  intro c hc
  simp only [List.mem_append, List.mem_cons] at hc
  rcases hc with hc | rfl | hc | rfl | hc
  · exact hdigit _ c hc
  · decide
  · exact hdigit _ c hc
  · decide
  · exact hdigit _ c hc

/-- A time below 1000 hours reads back from its text. -/
theorem read?_text {t : Time} (h : t.seconds < 3600000) : read? t.text = some t := by
  have hhours : (twoDigits (t.seconds / 3600)).toList.length ≤ 3 :=
    (length_twoDigits_le_three _).mpr (by omega)
  rw [read?_of_parts (toList_text t) (text_ascii t) ⟨one_le_length_twoDigits _, hhours⟩
    (length_twoDigits_of_lt (by omega)) (length_twoDigits_of_lt (by omega))
    (part?_twoDigits (by omega)) (part?_twoDigits (by omega)) (part?_twoDigits (by omega))]
  -- hours, minutes and seconds add up to the time again
  congr 2
  omega

/-- From 1000 hours on, the text of a time is too long to read. -/
theorem read?_text_eq_none {t : Time} (h : 3600000 ≤ t.seconds) : read? t.text = none := by
  have hhours : ¬ (twoDigits (t.seconds / 3600)).toList.length ≤ 3 :=
    fun hle => absurd ((length_twoDigits_le_three _).mp hle) (by omega)
  have hlong : 9 < t.text.toList.length := by
    rw [toList_text]
    simp only [List.length_append, List.length_cons,
      length_twoDigits_of_lt (n := t.seconds % 3600 / 60) (by omega),
      length_twoDigits_of_lt (n := t.seconds % 60) (by omega)]
    omega
  unfold read?
  rw [if_pos (by simp only [Bool.or_eq_true, decide_eq_true_eq]; omega)]

end Time

end TransitFeed
