-- SUMMARY: Fixed-point formatting of exact rationals (`f"{q:.6f}"`) and reading the digits back.
import ResearchSynthesis.Python.Utf8
import ResearchSynthesis.Python.Lines
import Mathlib.Data.Rat.Cast.Order
import Mathlib.Data.Rat.Floor
import Mathlib.Tactic.FieldSimp
import Mathlib.Tactic.Ring
import Mathlib.Tactic.Positivity

/-!
# Fixed-point formatting

Python formats a float with a fixed number of decimals by rounding its exact
value half to even. Floats are exact rationals here.
-/

namespace Python

/-- The decimal digits of `n`. -/
def natStr (n : Nat) : Str := (Nat.toDigits 10 n).map .scalar

/-- The nearest natural number, a tie going to the even one. -/
def roundHalfEven (q : ℚ) : Nat :=
  let n := q.num.natAbs / q.den
  let r := q.num.natAbs % q.den
  if 2 * r < q.den then n else if q.den < 2 * r then n + 1 else n + n % 2

/-- `f"{q:.<places>f}"`, for at least one decimal place. -/
def formatFixed (places : Nat) (q : ℚ) : Str :=
  let scaled := roundHalfEven (|q| * 10 ^ places)
  let whole := Nat.toDigits 10 (scaled / 10 ^ places)
  let fraction := (Nat.toDigits 10 (scaled % 10 ^ places)).leftpad places '0'
  ((if q < 0 then ['-'] else []) ++ whole ++ '.' :: fraction).map .scalar

/-- The number that a decimal numeral writes. -/
def decimalValue (s : Str) : ℚ :=
  let chars := s.filterMap CodePoint.toChar?
  let sign : ℚ := if chars.head? = some '-' then -1 else 1
  let digits := chars.filter (· ≠ '-')
  let whole := digits.takeWhile (· ≠ '.')
  let fraction := (digits.dropWhile (· ≠ '.')).drop 1
  sign * Nat.ofDigitChars 10 (whole ++ fraction) 0 / 10 ^ fraction.length

theorem roundHalfEven_natCast (n : Nat) : roundHalfEven n = n := by
  simp [roundHalfEven, Nat.mod_one]

theorem encodable_natStr (n : Nat) : (natStr n).Encodable := by
  intro c hc
  obtain ⟨d, -, rfl⟩ := List.mem_map.mp hc
  rfl

theorem encodable_formatFixed (places : Nat) (q : ℚ) : (formatFixed places q).Encodable := by
  intro c hc
  obtain ⟨d, -, rfl⟩ := List.mem_map.mp hc
  rfl

/-! ## Reading a formatted number back -/

theorem natStr_injective : Function.Injective natStr := by
  intro m n h
  have hchars := congrArg (List.filterMap CodePoint.toChar?) h
  rw [natStr, natStr, CodePoint.filterMap_toChar?_map_scalar,
    CodePoint.filterMap_toChar?_map_scalar] at hchars
  have hvalue := congrArg (Nat.ofDigitChars 10 · 0) hchars
  simpa only [Nat.ofDigitChars_ten_toDigits] using hvalue

theorem isDigit_ne {c d : Char} (h : c.isDigit) (hd : d.isDigit = false) : c ≠ d := by
  rintro rfl
  rw [h] at hd
  cases hd

theorem isDigit_of_mem_toDigits {n : Nat} {c : Char} (h : c ∈ Nat.toDigits 10 n) : c.isDigit :=
  Nat.isDigit_of_mem_toDigits (by decide) (by decide) h

theorem isDigit_of_mem_leftpad {n w : Nat} {c : Char}
    (h : c ∈ (Nat.toDigits 10 n).leftpad w '0') : c.isDigit := by
  rw [List.leftpad, List.mem_append, List.mem_replicate] at h
  rcases h with ⟨-, rfl⟩ | h
  · rfl
  · exact isDigit_of_mem_toDigits h

/-- What a formatted number is made of. -/
theorem mem_formatFixed {places : Nat} {q : ℚ} {c : CodePoint} (h : c ∈ formatFixed places q) :
    c ∈ lit "-." ∨ ∃ d : Char, d.isDigit ∧ c = .scalar d := by
  simp only [formatFixed, List.map_append, List.map_cons, List.mem_append, List.mem_cons,
    List.mem_map] at h
  rcases h with (⟨d, hd, rfl⟩ | ⟨d, hd, rfl⟩) | rfl | ⟨d, hd, rfl⟩
  · split at hd
    · rw [List.mem_singleton.mp hd]
      exact .inl (by decide)
    · cases hd
  · exact .inr ⟨d, isDigit_of_mem_toDigits hd, rfl⟩
  · exact .inl (by decide)
  · exact .inr ⟨d, isDigit_of_mem_leftpad hd, rfl⟩

/-! ## Numerals stay on one line -/

theorem isLineBreak_of_isDigit {c : Char} (h : c.isDigit) :
    CodePoint.isLineBreak (.scalar c) = false := by
  have hbreaks : ∀ d ∈ CodePoint.lineBreaks, ∀ e ∈ d.toChar?, e.isDigit = false := by
    simp [CodePoint.lineBreaks, CodePoint.toChar?]
  by_contra hc
  have hmem : CodePoint.scalar c ∈ CodePoint.lineBreaks := by simpa [CodePoint.isLineBreak] using hc
  rw [hbreaks _ hmem c rfl] at h
  cases h

theorem oneLine_map_digits {cs : List Char} (h : ∀ c ∈ cs, c.isDigit) :
    Str.OneLine (cs.map .scalar) := by
  intro c hc
  obtain ⟨d, hd, rfl⟩ := List.mem_map.mp hc
  exact isLineBreak_of_isDigit (h d hd)

theorem oneLine_natStr (n : Nat) : (natStr n).OneLine :=
  oneLine_map_digits fun _ hc => isDigit_of_mem_toDigits hc

theorem oneLine_formatFixed (places : Nat) (q : ℚ) : (formatFixed places q).OneLine := by
  have hpoint : Str.OneLine [.scalar '.'] := by decide
  simp only [formatFixed, List.map_append, List.map_cons]
  refine (Str.OneLine.append ?_ (oneLine_map_digits fun _ hc => isDigit_of_mem_toDigits hc)).append
    (hpoint.append (oneLine_map_digits fun _ hc => isDigit_of_mem_leftpad hc))
  split <;> decide

/-! ## Reading a numeral -/

/-- A numeral is read as its sign, the digits on both sides of the point, and
    the number of digits behind it. -/
theorem decimalValue_numeral (neg : Bool) {whole fraction : List Char}
    (hw : ∀ c ∈ whole, c.isDigit) (hf : ∀ c ∈ fraction, c.isDigit) (hne : whole ≠ []) :
    decimalValue (((if neg then ['-'] else []) ++ whole ++ '.' :: fraction).map .scalar) =
      (if neg then -1 else 1) * Nat.ofDigitChars 10 (whole ++ fraction) 0 / 10 ^ fraction.length := by
  have hdash (l : List Char) (hl : ∀ c ∈ l, c.isDigit) : l.filter (· ≠ '-') = l :=
    List.filter_eq_self.mpr fun c hc => by simpa using isDigit_ne (hl c hc) rfl
  have hpoint : ∀ c ∈ whole, c ≠ '.' := fun c hc => isDigit_ne (hw c hc) rfl
  obtain ⟨d, ds, rfl⟩ := List.exists_cons_of_ne_nil hne
  have hd : d ≠ '-' := isDigit_ne (hw d (by simp)) rfl
  have hdigits : ((if neg then ['-'] else []) ++ (d :: ds) ++ '.' :: fraction).filter (· ≠ '-') =
      (d :: ds) ++ '.' :: fraction := by
    rw [List.filter_append, List.filter_append, hdash _ hw, List.filter_cons_of_pos (by simp),
      hdash _ hf]
    cases neg <;> simp
  simp only [decimalValue, CodePoint.filterMap_toChar?_map_scalar, hdigits]
  rw [List.takeWhile_append_of_pos (by simpa using hpoint),
    List.dropWhile_append_of_pos (by simpa using hpoint)]
  cases neg <;> simp [hd]

theorem ofDigitChars_leftpad (n w : Nat) :
    Nat.ofDigitChars 10 ((Nat.toDigits 10 n).leftpad w '0') 0 = n := by
  rw [List.leftpad, Nat.ofDigitChars_append, Nat.ofDigitChars_replicate_zero]
  simp

theorem length_leftpad_toDigits {n w : Nat} (hw : 0 < w) (h : n < 10 ^ w) :
    ((Nat.toDigits 10 n).leftpad w '0').length = w := by
  have hlen := (Nat.length_toDigits_le_iff (by decide : 1 < 10) hw).mpr h
  simp only [List.leftpad, List.length_append, List.length_replicate]
  omega

theorem ofDigitChars_split {n p : Nat} (hp : 0 < p) :
    Nat.ofDigitChars 10 (Nat.toDigits 10 (n / 10 ^ p) ++
      (Nat.toDigits 10 (n % 10 ^ p)).leftpad p '0') 0 = n := by
  have hlen := length_leftpad_toDigits hp (Nat.mod_lt n (by positivity : 0 < 10 ^ p))
  rw [Nat.ofDigitChars_append, Nat.ofDigitChars_ten_toDigits, Nat.ofDigitChars_eq_ofDigitChars_zero,
    ofDigitChars_leftpad, hlen]
  exact Nat.div_add_mod n (10 ^ p)

/-- A number with at most `places` decimals is printed exactly. -/
theorem decimalValue_formatFixed {places : Nat} (hp : 0 < places) {q : ℚ} {n : ℤ}
    (hq : q = n / 10 ^ places) : decimalValue (formatFixed places q) = q := by
  have hscaled : |q| * 10 ^ places = (n.natAbs : ℕ) := by
    rw [hq, abs_div, abs_of_pos (by positivity : (0 : ℚ) < 10 ^ places)]
    field_simp
    rw [Nat.cast_natAbs, Int.cast_abs]
  have hneg : q < 0 ↔ n < 0 := by
    rw [hq, div_neg_iff]
    have hpos : (0 : ℚ) < 10 ^ places := by positivity
    constructor
    · rintro (⟨-, h⟩ | ⟨h, -⟩)
      · exact absurd h hpos.not_gt
      · exact_mod_cast h
    · intro h
      exact .inr ⟨by exact_mod_cast h, hpos⟩
  have hmod : n.natAbs % 10 ^ places < 10 ^ places := Nat.mod_lt _ (by positivity)
  have hread := decimalValue_numeral (decide (n < 0))
    (fun _ => @isDigit_of_mem_toDigits (n.natAbs / 10 ^ places) _)
    (fun _ => @isDigit_of_mem_leftpad (n.natAbs % 10 ^ places) places _) Nat.toDigits_ne_nil
  rw [ofDigitChars_split hp, length_leftpad_toDigits hp hmod] at hread
  simp only [formatFixed, hscaled, roundHalfEven_natCast, hneg]
  simp only [decide_eq_true_eq] at hread
  rw [hread, hq]
  split
  · next h => rw [Nat.cast_natAbs, abs_of_neg h]; push_cast; ring
  · next h => rw [Nat.cast_natAbs, abs_of_nonneg (not_lt.mp h)]; ring

end Python
