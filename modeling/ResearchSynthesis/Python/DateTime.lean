-- SUMMARY: `datetime` values and the `strftime` formats used in file names and cost rows.
import ResearchSynthesis.Python.Decimal

/-! # Dates and times -/

namespace Python

structure DateTime where
  year : Nat
  month : Nat
  day : Nat
  hour : Nat
  minute : Nat
  second : Nat
  microsecond : Nat
  year_le : year ≤ 9999
  month_le : month ≤ 12
  day_le : day ≤ 31
  hour_lt : hour < 24
  minute_lt : minute < 60
  second_lt : second < 60
  microsecond_lt : microsecond < 1000000

/-- `n` in at least `width` decimal digits. -/
def zeroPadded (width n : Nat) : Str := ((Nat.toDigits 10 n).leftpad width '0').map .scalar

namespace DateTime

/-- `f"{t:%Y%m%d-%H%M%S}"`. -/
def stamp (t : DateTime) : Str :=
  zeroPadded 4 t.year ++ zeroPadded 2 t.month ++ zeroPadded 2 t.day ++ lit "-" ++
    zeroPadded 2 t.hour ++ zeroPadded 2 t.minute ++ zeroPadded 2 t.second

/-- `t.strftime("%Y-%m-%d")`. -/
def date (t : DateTime) : Str :=
  zeroPadded 4 t.year ++ lit "-" ++ zeroPadded 2 t.month ++ lit "-" ++ zeroPadded 2 t.day

/-- The two times lie in the same second of the clock. -/
structure SameSecond (s t : DateTime) : Prop where
  year : s.year = t.year
  month : s.month = t.month
  day : s.day = t.day
  hour : s.hour = t.hour
  minute : s.minute = t.minute
  second : s.second = t.second

end DateTime

theorem encodable_zeroPadded (width n : Nat) : (zeroPadded width n).Encodable := by
  intro c hc
  obtain ⟨d, -, rfl⟩ := List.mem_map.mp hc
  rfl

theorem length_zeroPadded {width n : Nat} (hw : 0 < width) (h : n < 10 ^ width) :
    (zeroPadded width n).length = width := by
  rw [zeroPadded, List.length_map, length_leftpad_toDigits hw h]

theorem zeroPadded_injective {width m n : Nat} (h : zeroPadded width m = zeroPadded width n) :
    m = n := by
  have hscalar : Function.Injective CodePoint.scalar := fun a b hab => by cases hab; rfl
  have hchars := List.map_injective_iff.mpr hscalar h
  rw [← ofDigitChars_leftpad m width, hchars, ofDigitChars_leftpad]

/-- A digit of a number is not a path separator, nor any other punctuation. -/
theorem isDigit_of_mem_zeroPadded {width n : Nat} {c : CodePoint} (h : c ∈ zeroPadded width n) :
    ∃ d : Char, d.isDigit ∧ c = .scalar d := by
  obtain ⟨d, hd, rfl⟩ := List.mem_map.mp h
  exact ⟨d, isDigit_of_mem_leftpad hd, rfl⟩

theorem oneLine_zeroPadded (width n : Nat) : (zeroPadded width n).OneLine :=
  oneLine_map_digits fun _ hc => isDigit_of_mem_leftpad hc

namespace DateTime

theorem encodable_date (t : DateTime) : t.date.Encodable := by
  simp [date, encodable_zeroPadded]

theorem oneLine_date (t : DateTime) : t.date.OneLine := by
  have hdash : (lit "-").OneLine := by decide
  exact ((((oneLine_zeroPadded _ _).append hdash).append (oneLine_zeroPadded _ _)).append
    hdash).append (oneLine_zeroPadded _ _)

theorem length_stamp (t : DateTime) : t.stamp.length = 15 := by
  have := t.year_le; have := t.month_le; have := t.day_le
  have := t.hour_lt; have := t.minute_lt; have := t.second_lt
  simp only [stamp, List.length_append]
  rw [length_zeroPadded (by omega) (by omega), length_zeroPadded (by omega) (by omega),
    length_zeroPadded (by omega) (by omega), length_zeroPadded (by omega) (by omega),
    length_zeroPadded (by omega) (by omega), length_zeroPadded (by omega) (by omega)]
  rfl

/-- The stamp tells two times apart exactly when they are in different seconds. -/
theorem stamp_eq_iff {s t : DateTime} : s.stamp = t.stamp ↔ s.SameSecond t := by
  have := s.year_le; have := s.month_le; have := s.day_le
  have := s.hour_lt; have := s.minute_lt; have := s.second_lt
  have := t.year_le; have := t.month_le; have := t.day_le
  have := t.hour_lt; have := t.minute_lt; have := t.second_lt
  have htwo {m n : Nat} (hm : m < 100) (hn : n < 100) :
      (zeroPadded 2 m).length = (zeroPadded 2 n).length := by
    rw [length_zeroPadded (by omega) hm, length_zeroPadded (by omega) hn]
  constructor
  · intro h
    obtain ⟨h, hsecond⟩ := List.append_inj' h (htwo (by omega) (by omega))
    obtain ⟨h, hminute⟩ := List.append_inj' h (htwo (by omega) (by omega))
    obtain ⟨h, hhour⟩ := List.append_inj' h (htwo (by omega) (by omega))
    obtain ⟨h, -⟩ := List.append_inj' h rfl
    obtain ⟨h, hday⟩ := List.append_inj' h (htwo (by omega) (by omega))
    obtain ⟨hyear, hmonth⟩ := List.append_inj' h (htwo (by omega) (by omega))
    exact ⟨zeroPadded_injective hyear, zeroPadded_injective hmonth, zeroPadded_injective hday,
      zeroPadded_injective hhour, zeroPadded_injective hminute, zeroPadded_injective hsecond⟩
  · rintro ⟨hy, hmo, hd, hh, hmi, hs⟩
    simp only [stamp, hy, hmo, hd, hh, hmi, hs]

end DateTime

end Python
