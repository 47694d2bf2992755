-- SUMMARY: How Python orders strings, and that zero-padded numbers and time stamps are ordered as what they stand for.
import ResearchSynthesis.Python.DateTime
import Mathlib.Data.List.Lex

/-!
# The order of strings

Strings are ordered by their first different code point. Of fields that have a
fixed width the first different one decides, and of the digits of a zero-padded
number as well: so the texts come in the order of what they were made of.
-/

namespace Python

/-- `s < t`. -/
def Str.Before (s t : Str) : Prop := List.Lex (fun a b : CodePoint => a.toNat < b.toNat) s t

namespace Str

/-- What comes after the first difference does not matter. -/
theorem Before.append {s t : Str} (h : s.Before t) (hlength : s.length = t.length) (u v : Str) :
    Str.Before (s ++ u) (t ++ v) := by
  unfold Before at h ⊢
  induction h with
  | nil => simp at hlength
  | cons _ ih => exact .cons (ih (by simpa using hlength))
  | rel hlt => exact .rel hlt

theorem before_append_left {u v : Str} (s : Str) (h : u.Before v) : Str.Before (s ++ u) (s ++ v) :=
  List.Lex.append_left _ h s

end Str

/-! ## Digits -/

theorem digit_lt_ten {c : Char} (h : c.isDigit) : c.toNat - '0'.toNat < 10 := by
  have := Char.isDigit_iff_toNat.mp h
  simp at this ⊢
  omega

theorem ofDigitChars_lt {cs : List Char} (h : ∀ c ∈ cs, c.isDigit) :
    Nat.ofDigitChars 10 cs 0 < 10 ^ cs.length := by
  induction cs with
  | nil => simp
  | cons c cs ih =>
    obtain ⟨hc, hcs⟩ := List.forall_mem_cons.mp h
    have hdigit := digit_lt_ten hc
    have hrest := ih hcs
    rw [Nat.ofDigitChars_cons, Nat.ofDigitChars_eq_ofDigitChars_zero, List.length_cons, pow_succ]
    nlinarith

/-- Of two numbers with as many digits, the smaller one comes first. -/
theorem before_of_ofDigitChars_lt {cs ds : List Char} (hcs : ∀ c ∈ cs, c.isDigit)
    (hds : ∀ d ∈ ds, d.isDigit) (hlength : cs.length = ds.length)
    (hlt : Nat.ofDigitChars 10 cs 0 < Nat.ofDigitChars 10 ds 0) :
    Str.Before (cs.map .scalar) (ds.map .scalar) := by
  induction cs generalizing ds with
  | nil =>
    obtain rfl := List.length_eq_zero_iff.mp hlength.symm
    simp at hlt
  | cons c cs ih =>
    cases ds with
    | nil => simp at hlength
    | cons d ds =>
      obtain ⟨hc, hcs'⟩ := List.forall_mem_cons.mp hcs
      obtain ⟨hd, hds'⟩ := List.forall_mem_cons.mp hds
      have htail : cs.length = ds.length := by simpa using hlength
      rw [Nat.ofDigitChars_cons, Nat.ofDigitChars_cons, Nat.ofDigitChars_eq_ofDigitChars_zero,
        @Nat.ofDigitChars_eq_ofDigitChars_zero ds, htail, mul_zero, zero_add, zero_add] at hlt
      have hlow := (Char.isDigit_iff_toNat.mp hd).1
      rcases Nat.lt_trichotomy c.toNat d.toNat with hfirst | hfirst | hfirst
      · exact .rel hfirst
      · obtain rfl := Char.toNat_inj.mp hfirst
        exact .cons (ih hcs' hds' htail (by omega))
      · -- a larger digit outweighs all that follow
        have hstep : 10 ^ ds.length * (d.toNat - '0'.toNat + 1) ≤
            10 ^ ds.length * (c.toNat - '0'.toNat) := Nat.mul_le_mul_left _ (by omega)
        have hrest := ofDigitChars_lt hds'
        rw [mul_add, mul_one] at hstep
        omega

section
variable {width m n : Nat}

theorem width_pos (hmn : m < n) (hn : n < 10 ^ width) : 0 < width := by
  refine Nat.pos_of_ne_zero ?_
  rintro rfl
  rw [pow_zero] at hn
  omega

theorem zeroPadded_before (hmn : m < n) (hn : n < 10 ^ width) :
    (zeroPadded width m).Before (zeroPadded width n) := by
  have hwidth := width_pos hmn hn
  unfold zeroPadded
  refine before_of_ofDigitChars_lt (fun _ => isDigit_of_mem_leftpad)
    (fun _ => isDigit_of_mem_leftpad) ?_ ?_
  · rw [length_leftpad_toDigits hwidth (hmn.trans hn), length_leftpad_toDigits hwidth hn]
  · rwa [ofDigitChars_leftpad, ofDigitChars_leftpad]

/-- Of two fields of one width the smaller one decides, or else what comes behind. -/
theorem before_field {u v : Str} (hm : m < 10 ^ width) (hn : n < 10 ^ width)
    (h : m < n ∨ m = n ∧ u.Before v) :
    Str.Before (zeroPadded width m ++ u) (zeroPadded width n ++ v) := by
  rcases h with hmn | ⟨rfl, huv⟩
  · have hwidth := width_pos hmn hn
    refine (zeroPadded_before hmn hn).append ?_ u v
    rw [length_zeroPadded hwidth hm, length_zeroPadded hwidth hn]
  · exact Str.before_append_left _ huv

end

/-! ## Times -/

namespace DateTime

/-- The day of `s` comes before that of `t`. -/
def EarlierDay (s t : DateTime) : Prop :=
  s.year < t.year ∨ s.year = t.year ∧ (s.month < t.month ∨ s.month = t.month ∧ s.day < t.day)

/-- The second of `s` comes before that of `t`. -/
def Earlier (s t : DateTime) : Prop :=
  s.year < t.year ∨ s.year = t.year ∧ (s.month < t.month ∨ s.month = t.month ∧
    (s.day < t.day ∨ s.day = t.day ∧ (s.hour < t.hour ∨ s.hour = t.hour ∧
      (s.minute < t.minute ∨ s.minute = t.minute ∧ s.second < t.second))))

/-- Stamps come in the order of their times. -/
theorem stamp_before {s t : DateTime} (h : s.Earlier t) : s.stamp.Before t.stamp := by
  have := s.year_le; have := s.month_le; have := s.day_le
  have := s.hour_lt; have := s.minute_lt; have := s.second_lt
  have := t.year_le; have := t.month_le; have := t.day_le
  have := t.hour_lt; have := t.minute_lt; have := t.second_lt
  simp only [stamp, List.append_assoc]
  refine before_field (by omega) (by omega) (h.imp_right fun h => ⟨h.1, ?_⟩)
  refine before_field (by omega) (by omega) (h.2.imp_right fun h => ⟨h.1, ?_⟩)
  refine before_field (by omega) (by omega) (h.2.imp_right fun h => ⟨h.1, ?_⟩)
  refine Str.before_append_left _ ?_
  refine before_field (by omega) (by omega) (h.2.imp_right fun h => ⟨h.1, ?_⟩)
  refine before_field (by omega) (by omega) (h.2.imp_right fun h => ⟨h.1, ?_⟩)
  exact zeroPadded_before h.2 (by omega)

theorem date_before {s t : DateTime} (h : s.EarlierDay t) : s.date.Before t.date := by
  have := s.year_le; have := s.month_le; have := s.day_le
  have := t.year_le; have := t.month_le; have := t.day_le
  simp only [date, List.append_assoc]
  refine before_field (by omega) (by omega) (h.imp_right fun h => ⟨h.1, ?_⟩)
  refine Str.before_append_left _ ?_
  refine before_field (by omega) (by omega) (h.2.imp_right fun h => ⟨h.1, ?_⟩)
  refine Str.before_append_left _ ?_
  exact zeroPadded_before h.2 (by omega)

/-- A time that is not earlier than another is on its day or on a later one. -/
theorem date_eq_or_before {s t : DateTime} (h : s.Earlier t ∨ s.SameSecond t) :
    s.date = t.date ∨ s.date.Before t.date := by
  have hday : s.EarlierDay t ∨ s.year = t.year ∧ s.month = t.month ∧ s.day = t.day := by
    unfold EarlierDay
    rcases h with h | h
    · unfold Earlier at h
      omega
    · exact .inr ⟨h.year, h.month, h.day⟩
  rcases hday with hday | ⟨hy, hm, hd⟩
  · exact .inr (date_before hday)
  · exact .inl (by simp only [date, hy, hm, hd])

end DateTime

end Python
