import TransitFeed.Proofs.Calendar.Civil
import TransitFeed.Proofs.Text.Decimal

/-!
# Dates read back from their texts

A date is written with its year, month and day: `YYYYMMDD` in feed files, `YYYY-MM-DD` in
databases and JSON. The year has four digits when it lies in 0..9999 and a sign and at least
four digits otherwise; month and day have two digits. The reader scans at most four digits for
a year without sign but every digit after a sign.

So the `YYYY-MM-DD` text of every date of a supported year reads back as the date, while the
`YYYYMMDD` text reads back exactly when the year lies in 0..9999: after a sign the year takes
the digits of the month and the day too, and the month is never found. Main statements:
`Date.read_iso` and `Date.read_compact_iff`.
-/

namespace TransitFeed

/-! ### Scanning digits -/

/-- The digits seen before the first other character, within a width. -/
theorem takeWhile_take_digits {ds rest : List Char} {width : Nat} (hds : ∀ c ∈ ds, c.isDigit)
    (hlen : ds.length ≤ width) (hstop : ds.length = width ∨ ∀ c ∈ rest.head?, c.isDigit = false) :
    ((ds ++ rest).take width).takeWhile Char.isDigit = ds := by
  rw [List.take_append, List.take_of_length_le hlen, List.takeWhile_append_of_pos hds]
  rcases hstop with hw | hnd
  · simp [hw]
  · cases rest with
    | nil => simp
    | cons r more =>
      have hr : r.isDigit = false := hnd r rfl
      cases h : width - ds.length with
      | zero => simp
      | succ k => simp [hr]

/-- Leading digits that fit the width are read as their value, and reading stops after
them, unless the value passes the 64-bit range. -/
theorem scanNumber_digits {ds rest : List Char} {width : Nat} (hne : ds ≠ [])
    (hds : ∀ c ∈ ds, c.isDigit) (hlen : ds.length ≤ width)
    (hstop : ds.length = width ∨ ∀ c ∈ rest.head?, c.isDigit = false) :
    scanNumber (ds ++ rest) width =
      if (Nat.ofDigitChars 10 ds 0 : Int) > 9223372036854775807 then .error .outOfRange
      else .ok (Nat.ofDigitChars 10 ds 0, rest) := by
  obtain ⟨c, cs, rfl⟩ := List.exists_cons_of_ne_nil hne
  have hc : c.isDigit = true := hds c List.mem_cons_self
  have hseen := takeWhile_take_digits hds hlen hstop
  have hfold := foldl_digits (c :: cs) hds 0
  rw [Int.natCast_zero] at hfold
  unfold scanNumber
  simp only [List.cons_append, hc, Bool.not_true, Bool.false_eq_true, ↓reduceIte]
  rw [← List.cons_append, hseen, hfold, List.drop_left]

/-- A digit is no blank. -/
theorem isBlank_of_isDigit {c : Char} (h : c.isDigit) : isBlank c = false := by
  have hc := Char.isDigit_iff_toNat.mp h
  simp only [Char.reduceToNat] at hc
  simp only [isBlank, Bool.or_eq_false_iff, Bool.and_eq_false_iff, decide_eq_false_iff_not,
    beq_eq_false_iff_ne]
  omega

/-- Two digits, then anything, are scanned as their value. -/
theorem scanNumber_two_digits {ds rest : List Char} (hds : ∀ c ∈ ds, c.isDigit) (hlen : ds.length = 2) :
    scanNumber ((ds ++ rest).dropWhile isBlank) 2 = .ok (Nat.ofDigitChars 10 ds 0, rest) := by
  have hne : ds ≠ [] := List.ne_nil_of_length_pos (by omega)
  have hval := ofDigitChars_lt ds hds 0
  have hscan : scanNumber (ds ++ rest) 2 = _ := scanNumber_digits hne hds (Nat.le_of_eq hlen) (.inl hlen)
  rw [if_neg (by rw [hlen, Nat.zero_add, Nat.one_mul] at hval; omega)] at hscan
  obtain ⟨c, cs, rfl⟩ := List.exists_cons_of_ne_nil hne
  have hc : c.isDigit = true := hds c List.mem_cons_self
  simp only [List.cons_append, List.dropWhile_cons, isBlank_of_isDigit hc, Bool.false_eq_true,
    ↓reduceIte] at hscan ⊢
  exact hscan

/-- A digit is neither sign. -/
theorem ne_signs_of_isDigit {c : Char} (h : c.isDigit) : c ≠ '-' ∧ c ≠ '+' := by
  constructor <;> (rintro rfl; exact absurd h (by decide))

namespace Date

/-! ### Naturals written with a width -/

/-- The characters of a natural written with at least `width` digits. -/
theorem toList_padded (width n : Nat) :
    (padded width n).toList =
      List.replicate (width - (Nat.toDigits 10 n).length) '0' ++ Nat.toDigits 10 n := by
  simp [padded, ← String.length_toList]

/-- A natural written with a width is all digits. -/
theorem padded_isDigit (width n : Nat) : ∀ c ∈ (padded width n).toList, c.isDigit := by
  rw [toList_padded]
  intro c hc
  rcases List.mem_append.mp hc with h | h
  · rw [List.eq_of_mem_replicate h]
    rfl
  · exact Nat.isDigit_of_mem_toDigits (by decide) (by decide) h

/-- The digits of a natural written with a width denote it: the zeros in front add nothing. -/
theorem ofDigitChars_padded (width n : Nat) : Nat.ofDigitChars 10 (padded width n).toList 0 = n := by
  rw [toList_padded, Nat.ofDigitChars_append, Nat.ofDigitChars_replicate_zero, Nat.mul_zero,
    Nat.ofDigitChars_ten_toDigits]

/-- A natural is written with at least one digit. -/
theorem padded_ne_nil (width n : Nat) : (padded width n).toList ≠ [] := by
  rw [toList_padded]
  simp

/-- A natural below `10 ^ width` is written with exactly `width` digits. -/
theorem length_padded {width n : Nat} (hw : 0 < width) (hn : n < 10 ^ width) :
    (padded width n).toList.length = width := by
  have hlen := (Nat.length_toDigits_le_iff (by decide) hw).mpr hn
  rw [toList_padded, List.length_append, List.length_replicate]
  omega

/-- A natural below `10 ^ 6` is written with at most six digits, in any width up to six. -/
theorem length_padded_le {w n : Nat} (hw : w ≤ 6) (hn : n < 10 ^ 6) :
    (padded w n).toList.length ≤ 6 := by
  have hlen := (Nat.length_toDigits_le_iff (by decide) (by decide : 0 < 6)).mpr hn
  rw [toList_padded, List.length_append, List.length_replicate]
  omega

/-- No month has more than 31 days. -/
theorem monthLength_le (y : Int) (m : Nat) : monthLength y m ≤ 31 := by
  unfold monthLength
  split
  · -- February, whose length depends on the year
    split <;> omega
  all_goals omega

/-- A year in 0..9999 is written with four digits and no sign. -/
theorem yearText_of_le {y : Int} (h0 : 0 ≤ y) (h9 : y ≤ 9999) : yearText y = padded 4 y.toNat := by
  simp [yearText, h0, h9]

/-- A year outside 0..9999 is written with its sign. -/
theorem yearText_of_signed {y : Int} (h : y < 0 ∨ 9999 < y) :
    yearText y = String.singleton (if y < 0 then '-' else '+') ++ padded 4 y.natAbs := by
  have hnot : ¬(0 ≤ y ∧ y ≤ 9999) := by omega
  unfold yearText
  rw [if_neg (by simpa using hnot)]
  split <;> rfl

end Date

/-! ### The items of a layout -/

/-- A year of at most four digits without a sign is read as their value. -/
theorem readItems_year_unsigned {ds r : List Char} (hne : ds ≠ []) (hds : ∀ c ∈ ds, c.isDigit)
    (hlen : ds.length ≤ 4) (hstop : ds.length = 4 ∨ ∀ c ∈ r.head?, c.isDigit = false)
    (hval : Nat.ofDigitChars 10 ds 0 ≤ 2147483647) (items : List DateItem) (fields : DateFields) :
    readItems (.year :: items) (ds ++ r) fields =
      readItems items r { fields with year := some (Nat.ofDigitChars 10 ds 0 : Int) } := by
  have hscan := scanNumber_digits hne hds hlen hstop
  obtain ⟨c, cs, rfl⟩ := List.exists_cons_of_ne_nil hne
  have hc : c.isDigit = true := hds c List.mem_cons_self
  have hsign := ne_signs_of_isDigit hc
  rw [if_neg (by omega)] at hscan
  simp only [readItems, List.cons_append, List.dropWhile_cons, isBlank_of_isDigit hc,
    Bool.false_eq_true, ↓reduceIte]
  simp only [List.cons_append] at hscan
  simp [hsign.1, hsign.2, hscan]
  omega

/-- A sign and digits up to the next non-digit are read as a signed year. -/
theorem readItems_year_signed {sign : Char} {ds rest : List Char} (hsign : sign = '-' ∨ sign = '+')
    (hne : ds ≠ []) (hds : ∀ c ∈ ds, c.isDigit) (hlen : ds.length ≤ 1000000)
    (hstop : ∀ c ∈ rest.head?, c.isDigit = false) (hval : Nat.ofDigitChars 10 ds 0 ≤ 2147483647)
    (items : List DateItem) (fields : DateFields) :
    readItems (.year :: items) (sign :: (ds ++ rest)) fields =
      readItems items rest { fields with
        year := some (if sign = '-' then -(Nat.ofDigitChars 10 ds 0 : Int)
          else (Nat.ofDigitChars 10 ds 0 : Int)) } := by
  have hscan := scanNumber_digits hne hds hlen (.inr hstop)
  rw [if_neg (by omega)] at hscan
  have hblank : isBlank sign = false := by rcases hsign with rfl | rfl <;> decide
  rcases hsign with rfl | rfl
  · simp only [readItems, List.dropWhile_cons, hblank, Bool.false_eq_true, ↓reduceIte]
    simp [hscan, Except.map]
    omega
  · simp only [readItems, List.dropWhile_cons, hblank, Bool.false_eq_true, ↓reduceIte]
    simp [hscan]
    omega

/-- After a sign, a year takes every digit that follows, so a month that follows the year
with no separator is never found. -/
theorem readItems_signed_year_swallows {sign : Char} {ds : List Char}
    (hsign : sign = '-' ∨ sign = '+') (hne : ds ≠ []) (hds : ∀ c ∈ ds, c.isDigit)
    (hlen : ds.length ≤ 1000000) (items : List DateItem) (fields : DateFields) :
    ∃ e, readItems (.year :: .month :: items) (sign :: ds) fields = .error e := by
  have hscan : scanNumber (ds ++ []) 1000000 = _ := scanNumber_digits hne hds hlen (.inr (by simp))
  rw [List.append_nil] at hscan
  have hblank : isBlank sign = false := by rcases hsign with rfl | rfl <;> decide
  by_cases hbig : (Nat.ofDigitChars 10 ds 0 : Int) > 9223372036854775807
  · rw [if_pos hbig] at hscan
    rcases hsign with rfl | rfl <;> simp [readItems, hblank, hscan, Except.map]
  · rw [if_neg hbig] at hscan
    have hnil : scanNumber [] 2 = .error .tooShort := rfl
    rcases hsign with rfl | rfl <;> simp [readItems, hblank, hscan, Except.map, hnil] <;> split <;> simp

/-- Two digits of a month in 1..12 are read as the month. -/
theorem readItems_month {ds r : List Char} (hds : ∀ c ∈ ds, c.isDigit) (hlen : ds.length = 2)
    (hm : 1 ≤ Nat.ofDigitChars 10 ds 0 ∧ Nat.ofDigitChars 10 ds 0 ≤ 12)
    (items : List DateItem) (fields : DateFields) :
    readItems (.month :: items) (ds ++ r) fields =
      readItems items r { fields with month := some (Nat.ofDigitChars 10 ds 0) } := by
  simp only [readItems, scanNumber_two_digits hds hlen]
  simp
  omega

/-- Two digits of a day in 1..31 are read as the day. -/
theorem readItems_day {ds r : List Char} (hds : ∀ c ∈ ds, c.isDigit) (hlen : ds.length = 2)
    (hd : 1 ≤ Nat.ofDigitChars 10 ds 0 ∧ Nat.ofDigitChars 10 ds 0 ≤ 31)
    (items : List DateItem) (fields : DateFields) :
    readItems (.day :: items) (ds ++ r) fields =
      readItems items r { fields with day := some (Nat.ofDigitChars 10 ds 0) } := by
  simp only [readItems, scanNumber_two_digits hds hlen]
  simp
  omega

namespace Date

/-! ### Dates -/

/-- The year text of a supported year is read back as the year, up to any character that
is not a digit. -/
theorem readItems_yearText {y : Int} (hmin : minYear ≤ y) (hmax : y ≤ maxYear) {rest : List Char}
    (hstop : ∀ c ∈ rest.head?, c.isDigit = false) (items : List DateItem) (fields : DateFields) :
    readItems (.year :: items) ((yearText y).toList ++ rest) fields =
      readItems items rest { fields with year := some y } := by
  unfold minYear at hmin
  unfold maxYear at hmax
  by_cases hunsigned : 0 ≤ y ∧ y ≤ 9999
  · rw [yearText_of_le hunsigned.1 hunsigned.2,
      readItems_year_unsigned (padded_ne_nil 4 y.toNat) (padded_isDigit 4 y.toNat)
        (by rw [length_padded (by decide) (by omega)]) (.inr hstop)
        (by rw [ofDigitChars_padded]; omega),
      ofDigitChars_padded, Int.toNat_of_nonneg hunsigned.1]
  · have hsigned : y < 0 ∨ 9999 < y := by omega
    have hsign : (if y < 0 then '-' else '+') = '-' ∨ (if y < 0 then '-' else '+') = '+' := by
      split <;> simp
    rw [yearText_of_signed hsigned, String.toList_append, String.toList_singleton,
      List.singleton_append, List.cons_append,
      readItems_year_signed hsign (padded_ne_nil 4 y.natAbs) (padded_isDigit 4 y.natAbs)
        (by have := length_padded_le (w := 4) (n := y.natAbs) (by decide) (by omega); omega) hstop
        (by rw [ofDigitChars_padded]; omega),
      ofDigitChars_padded]
    congr
    rcases hsigned with hneg | hpos
    · simp [hneg, abs_of_neg hneg]
    · simp [show ¬y < 0 by omega, abs_of_pos (by omega : 0 < y)]

/-- The compact text of a date of a year in 0..9999 reads back as the date. -/
theorem read_compact_of_le {date : Date} (h0 : 0 ≤ date.civil.1) (h9 : date.civil.1 ≤ 9999) :
    Date.read DateItem.compact date.compact = .ok date := by
  have hback := ofCivil?_civil date (by unfold minYear; omega) (by unfold maxYear; omega)
  obtain ⟨hm1, hm12, hd1, hdlen, -⟩ := civil_valid date
  have hd31 := monthLength_le date.civil.1 date.civil.2.1
  unfold compact
  generalize date.civil = c at *
  obtain ⟨y, m, d⟩ := c
  simp only at *
  have hY := readItems_year_unsigned (padded_ne_nil 4 y.toNat) (padded_isDigit 4 y.toNat)
    (by rw [length_padded (by decide) (by omega)]) (.inl (length_padded (by decide) (by omega)))
    (by rw [ofDigitChars_padded]; omega)
    (r := (padded 2 m).toList ++ (padded 2 d).toList) [.month, .day] {}
  have hM := readItems_month (padded_isDigit 2 m) (length_padded (by decide) (by omega))
    (by rw [ofDigitChars_padded]; omega) (r := (padded 2 d).toList) [.day]
  have hD := readItems_day (padded_isDigit 2 d) (length_padded (by decide) (by omega))
    (by rw [ofDigitChars_padded]; omega) (r := []) []
  rw [List.append_nil] at hD
  unfold Date.read DateItem.compact
  rw [yearText_of_le h0 h9, String.toList_append, String.toList_append, List.append_assoc, hY, hM, hD]
  simp [readItems, ofDigitChars_padded, Int.toNat_of_nonneg h0, hback]

/-- The compact text of a date of a supported year reads back as the date exactly when the
year is in 0..9999: a signed year takes the digits of the month and the day too. -/
theorem read_compact_iff {date : Date} (hmin : minYear ≤ date.civil.1) (hmax : date.civil.1 ≤ maxYear) :
    Date.read DateItem.compact date.compact = .ok date ↔ 0 ≤ date.civil.1 ∧ date.civil.1 ≤ 9999 := by
  refine ⟨fun hread => ?_, fun h => read_compact_of_le h.1 h.2⟩
  by_contra hout
  have hsigned : date.civil.1 < 0 ∨ 9999 < date.civil.1 := by omega
  obtain ⟨hm1, hm12, hd1, hdlen, -⟩ := civil_valid date
  have hd31 := monthLength_le date.civil.1 date.civil.2.1
  unfold minYear at hmin
  unfold maxYear at hmax
  unfold compact at hread
  generalize date.civil = c at *
  obtain ⟨y, m, d⟩ := c
  simp only at *
  have hsign : (if y < 0 then '-' else '+') = '-' ∨ (if y < 0 then '-' else '+') = '+' := by
    split <;> simp
  have hP := length_padded_le (w := 4) (n := y.natAbs) (by decide) (by omega)
  have hM := length_padded_le (w := 2) (n := m) (by decide) (by omega)
  have hD := length_padded_le (w := 2) (n := d) (by decide) (by omega)
  have hdigits : ∀ c ∈ (padded 4 y.natAbs).toList ++ (padded 2 m).toList ++ (padded 2 d).toList,
      c.isDigit := by
    intro c hc
    simp only [List.mem_append] at hc
    rcases hc with (h | h) | h
    · exact padded_isDigit _ _ c h
    · exact padded_isDigit _ _ c h
    · exact padded_isDigit _ _ c h
  obtain ⟨e, he⟩ := readItems_signed_year_swallows hsign
    (List.append_ne_nil_of_left_ne_nil (List.append_ne_nil_of_left_ne_nil (padded_ne_nil 4 _) _) _)
    hdigits (by simp only [List.length_append]; omega) [.day] {}
  unfold Date.read DateItem.compact at hread
  rw [yearText_of_signed hsigned] at hread
  simp only [String.toList_append, String.toList_singleton, List.cons_append, List.nil_append] at hread
  rw [he] at hread
  simp at hread

/-- The `YYYY-MM-DD` text of a date of a supported year reads back as the date, blanks
allowed or not. -/
theorem read_iso {date : Date} (hmin : minYear ≤ date.civil.1) (hmax : date.civil.1 ≤ maxYear)
    {layout : List DateItem} (hlayout : layout = DateItem.iso ∨ layout = DateItem.isoBlanks) :
    Date.read layout date.iso = .ok date := by
  have hback := ofCivil?_civil date hmin hmax
  obtain ⟨hm1, hm12, hd1, hdlen, -⟩ := civil_valid date
  have hd31 := monthLength_le date.civil.1 date.civil.2.1
  unfold iso
  generalize date.civil = c at *
  obtain ⟨y, m, d⟩ := c
  simp only at *
  -- the year, the month and the day read the same whatever follows them in the layout
  have hY : ∀ items fields, readItems (.year :: items)
      ((yearText y).toList ++ '-' :: ((padded 2 m).toList ++ '-' :: (padded 2 d).toList)) fields =
      readItems items ('-' :: ((padded 2 m).toList ++ '-' :: (padded 2 d).toList)) { fields with year := some y } :=
    readItems_yearText hmin hmax (by simp)
  have hM := readItems_month (padded_isDigit 2 m) (length_padded (by decide) (by omega))
    (by rw [ofDigitChars_padded]; omega) (r := '-' :: (padded 2 d).toList)
  have hD := readItems_day (padded_isDigit 2 d) (length_padded (by decide) (by omega))
    (by rw [ofDigitChars_padded]; omega) (r := [])
  simp only [List.append_nil] at hD
  have hdash : "-".toList = ['-'] := rfl
  unfold Date.read
  rcases hlayout with rfl | rfl <;>
    simp only [DateItem.iso, DateItem.isoBlanks, String.toList_append, List.append_assoc, hdash,
      List.cons_append, List.nil_append, hY, readItems_blanks_dash, readItems_dash, hM, hD] <;>
    simp only [readItems, List.dropWhile_nil, ofDigitChars_padded, hback]

end Date

end TransitFeed
