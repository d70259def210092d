import TransitFeed.Proofs.Value.Forms

/-!
# Values read back from their relational cell

A value is stored in a relational cell of its own kind where there is one: integers, flags
and times as integers, floats as floats, texts as texts. Dates and colours are stored as
their text, a date as `YYYY-MM-DD` with a signed year outside 0..9999, a colour as `RRGGBB`.
Reading a cell back takes an integer or a float as it is and goes through the text
otherwise, a date through `YYYY-MM-DD` first.

Every value of a column's type is read back from its cell, the empty text and every float
included, and so is every cell of an optional column, absence being stored as nothing.
Main statement: `relational_forms_round_trip`.
-/

namespace TransitFeed

namespace FieldType

/-- An integer of a type's range is read back from the integer cell it is stored in. -/
theorem ofSql_integer {t : FieldType} (hint : t = .int32 ∨ t = .int64 ∨ t = .nat32) {n : Int}
    (hn : t.intRange.contains n = true) : t.ofSql (.integer n) = .ok (.int n) := by
  simp only [IntRange.contains, Bool.and_eq_true, decide_eq_true_eq] at hn
  rcases hint with rfl | rfl | rfl <;> simp [ofSql, IntRange.check_of_le hn.1 hn.2]

/-- A date of a supported year is read back from its `YYYY-MM-DD` text. -/
theorem ofSql_date {d : Date} (hmin : Date.minYear ≤ d.civil.1) (hmax : d.civil.1 ≤ Date.maxYear) :
    FieldType.date.ofSql (.text d.iso) = .ok (.date d) := by
  simp [ofSql, SqlValue.asText, Date.read_iso hmin hmax (.inl rfl)]

/-- A time of at most `2 ^ 32 - 1` seconds is read back from its count of seconds. -/
theorem ofSql_time {t : Time} (ht : t.seconds ≤ 4294967295) :
    FieldType.time.ofSql (.integer t.seconds) = .ok (.time t) := by
  have hcheck : IntRange.u32.check (t.seconds : Int) = .ok (t.seconds : Int) :=
    IntRange.check_of_le (by simp [IntRange.u32]) (by simp only [IntRange.u32]; omega)
  simp [ofSql, hcheck]

/-- Every value of a type is read back from its relational cell. -/
theorem ofSql_toSql {t : FieldType} {v : FieldValue} (hfit : t.fits v = true) :
    t.ofSql v.toSql = .ok v := by
  cases t <;> cases v <;> simp only [fits, reduceCtorEq] at hfit
  case text.text s => simp [ofSql, FieldValue.toSql, SqlValue.asText, parse]
  case int32.int n => exact ofSql_integer (.inl rfl) hfit
  case int64.int n => exact ofSql_integer (.inr (.inl rfl)) hfit
  case nat32.int n => exact ofSql_integer (.inr (.inr rfl)) hfit
  case real.real x => rfl
  case flag.flag b => cases b <;> rfl
  case date.date d =>
    simp only [Bool.and_eq_true, decide_eq_true_eq] at hfit
    exact ofSql_date hfit.1 hfit.2
  case time.time t =>
    simp only [decide_eq_true_eq] at hfit
    exact ofSql_time hfit
  case color.color c =>
    simp only [Bool.and_eq_true, decide_eq_true_eq] at hfit
    simp [ofSql, FieldValue.toSql, SqlValue.asText, parse, Color.read?_text ⟨hfit.1.1, hfit.1.2, hfit.2⟩]

end FieldType

/-- No value is stored as nothing. -/
theorem FieldValue.toSql_isNull (v : FieldValue) : v.toSql.isNull = false := by
  cases v <;> rfl

namespace Cell

/-- A cell of an optional column whose value fits the column's type is read back from its
relational form; absence is stored as nothing and read back from it. -/
theorem ofSql_toSql {t : FieldType} {c : Cell} (hfit : ∀ v ∈ c, t.fits v = true) :
    ofSql t true c.toSql = .ok c := by
  cases c with
  | none => rfl
  | some v =>
    simp only [ofSql, toSql, FieldValue.toSql_isNull, Bool.and_false, Bool.false_eq_true, ↓reduceIte,
      FieldType.ofSql_toSql (hfit v rfl)]
    rfl

end Cell

/-- The relational form of every field type round-trips: a value of the type is read back
from its cell, and so is every cell of an optional column, absence being stored as nothing
and nothing read back as absence. -/
theorem relational_forms_round_trip (t : FieldType) :
    (∀ v, t.fits v = true → t.ofSql v.toSql = .ok v) ∧
      Cell.toSql none = .null ∧ Cell.ofSql t true .null = .ok none ∧
      ∀ c : Cell, (∀ v ∈ c, t.fits v = true) → Cell.ofSql t true c.toSql = .ok c :=
  ⟨fun _ hfit => FieldType.ofSql_toSql hfit, rfl, rfl, fun _ hfit => Cell.ofSql_toSql hfit⟩

end TransitFeed
