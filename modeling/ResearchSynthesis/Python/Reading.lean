-- SUMMARY: Reading printed text back: numerals, a field between two fixed texts, the lines behind the last marker.
import ResearchSynthesis.Python.Decimal
import Mathlib.Tactic.Linarith

/-!
# Reading printed text

The readers reject what is not of the printed form. A whole number is read back
as it was; a number printed with `places` decimals as `rounded places`, at most
half a unit of the last place away.
-/

namespace Python

/-! ## Whole numbers -/

/-- The characters of a text without surrogates. -/
def chars? (s : Str) : Option (List Char) := s.mapM CodePoint.toChar?

theorem chars?_map_scalar (cs : List Char) : chars? (cs.map .scalar) = some cs := by
  induction cs with
  | nil => rfl
  | cons c cs ih =>
    unfold chars? at ih ⊢
    rw [List.map_cons, List.mapM_cons, ih]
    rfl

/-- One digit or more. -/
def isDigits (cs : List Char) : Bool := !cs.isEmpty && cs.all Char.isDigit

theorem isDigits_of_forall {cs : List Char} (hne : cs ≠ []) (h : ∀ c ∈ cs, c.isDigit) :
    isDigits cs := by
  simpa [isDigits, hne] using h

def readNat (s : Str) : Option Nat := do
  let cs ← chars? s
  if isDigits cs then some (Nat.ofDigitChars 10 cs 0) else none

theorem readNat_natStr (n : Nat) : readNat (natStr n) = some n := by
  have hdigits : isDigits (Nat.toDigits 10 n) :=
    isDigits_of_forall Nat.toDigits_ne_nil fun c hc => isDigit_of_mem_toDigits hc
  unfold readNat natStr
  rw [chars?_map_scalar]
  simp [hdigits]

/-- A whole number with a minus sign or without. -/
def readInt : Str → Option Int
  | .scalar '-' :: s => (readNat s).map fun n : Nat => -(n : Int)
  | s => (readNat s).map Int.ofNat

theorem readInt_neg_natStr (n : Nat) : readInt (.scalar '-' :: natStr n) = some (-(n : Int)) := by
  change (readNat (natStr n)).map _ = _
  rw [readNat_natStr]
  rfl

theorem readInt_natStr (n : Nat) : readInt (natStr n) = some (n : Int) := by
  have hhead : ∀ s, natStr n ≠ .scalar '-' :: s := by
    intro s hs
    have hmem : CodePoint.scalar '-' ∈ natStr n := by rw [hs]; simp
    obtain ⟨d, hd, heq⟩ := List.mem_map.mp hmem
    exact isDigit_ne (isDigit_of_mem_toDigits hd) rfl (CodePoint.scalar.inj heq)
  unfold readInt
  split
  · next s hs => exact absurd hs (hhead s)
  · rw [readNat_natStr]
    rfl

/-! ## Rounding -/

/-- The nearest number with `places` decimals, a tie going to the even digit. -/
def rounded (places : Nat) (q : ℚ) : ℚ :=
  (if q < 0 then -1 else 1) * roundHalfEven (|q| * 10 ^ places) / 10 ^ places

theorem natCast_natAbs_num {q : ℚ} (hq : 0 ≤ q) : (q.num.natAbs : ℚ) = q.num := by
  have hnum : (q.num.natAbs : ℤ) = q.num := Int.natAbs_of_nonneg (Rat.num_nonneg.mpr hq)
  calc (q.num.natAbs : ℚ) = ((q.num.natAbs : ℤ) : ℚ) := (Int.cast_natCast _).symm
    _ = q.num := by rw [hnum]

/-- Rounding moves a number by one half at most. -/
theorem abs_roundHalfEven_sub_le {q : ℚ} (hq : 0 ≤ q) : |(roundHalfEven q : ℚ) - q| ≤ 1 / 2 := by
  have hden : (0 : ℚ) < q.den := by exact_mod_cast q.den_pos
  have hdivmod : (q.den : ℚ) * (q.num.natAbs / q.den : ℕ) + (q.num.natAbs % q.den : ℕ) = q.num := by
    rw [← natCast_natAbs_num hq]
    exact_mod_cast Nat.div_add_mod q.num.natAbs q.den
  have hmod : ((q.num.natAbs % q.den : ℕ) : ℚ) < q.den := by
    exact_mod_cast Nat.mod_lt _ q.den_pos
  have hscaled : q * q.den = q.num := Rat.mul_den_eq_num q
  unfold roundHalfEven
  generalize q.num.natAbs / q.den = n at hdivmod ⊢
  generalize q.num.natAbs % q.den = r at hdivmod hmod ⊢
  have hr : (0 : ℚ) ≤ r := Nat.cast_nonneg r
  -- it is enough to compare twice the distance with the denominator
  have hclose {m : ℕ} (hle : 2 * (m * q.den - q.num : ℚ) ≤ q.den)
      (hge : -(q.den : ℚ) ≤ 2 * (m * q.den - q.num)) : |(m : ℚ) - q| ≤ 1 / 2 := by
    rw [← hscaled] at hle hge
    rw [abs_le]
    constructor <;> nlinarith
  dsimp only
  split
  · next hlow =>
    have hlow : (2 : ℚ) * r < q.den := by exact_mod_cast hlow
    exact hclose (by linarith) (by linarith)
  · next hlow =>
    have hlow : (q.den : ℚ) ≤ 2 * r := by exact_mod_cast not_lt.mp hlow
    split
    · refine hclose ?_ ?_ <;> push_cast <;> linarith
    · next hhigh =>
      have hhigh : 2 * (r : ℚ) ≤ q.den := by exact_mod_cast not_lt.mp hhigh
      rcases Nat.mod_two_eq_zero_or_one n with heven | hodd
      · rw [heven]
        refine hclose ?_ ?_ <;> push_cast <;> linarith
      · rw [hodd]
        refine hclose ?_ ?_ <;> push_cast <;> linarith

/-- Rounding moves a number by half a unit of the last place at most. -/
theorem abs_rounded_sub_le (places : Nat) (q : ℚ) :
    |rounded places q - q| ≤ 1 / (2 * 10 ^ places) := by
  have hpow : (0 : ℚ) < 10 ^ places := by positivity
  have hround := abs_roundHalfEven_sub_le (q := |q| * 10 ^ places) (by positivity)
  have hsign : rounded places q - q = (if q < 0 then -1 else 1) *
      ((roundHalfEven (|q| * 10 ^ places) - |q| * 10 ^ places) / 10 ^ places) := by
    unfold rounded
    split
    · next h => rw [abs_of_neg h]; field_simp; ring
    · next h => rw [abs_of_nonneg (not_lt.mp h)]; field_simp
  have habs : |(if q < 0 then -1 else 1 : ℚ)| = 1 := by split <;> simp
  rw [hsign, abs_mul, habs, one_mul, abs_div, abs_of_pos hpow]
  calc |(roundHalfEven (|q| * 10 ^ places) : ℚ) - |q| * 10 ^ places| / 10 ^ places
      ≤ 1 / 2 / 10 ^ places := by gcongr
    _ = 1 / (2 * 10 ^ places) := by rw [div_div]

/-! ## Numbers with a point -/

/-- A number with one digit or more on both sides of its point. -/
def readFixed (s : Str) : Option ℚ := do
  let cs ← chars? s
  let digits := if cs.head? = some '-' then cs.tail else cs
  if isDigits (digits.takeWhile (· ≠ '.')) && isDigits ((digits.dropWhile (· ≠ '.')).drop 1) then
    some (decimalValue s)
  else none

theorem readFixed_numeral (neg : Bool) {whole fraction : List Char}
    (hw : ∀ c ∈ whole, c.isDigit) (hf : ∀ c ∈ fraction, c.isDigit) (hwhole : whole ≠ [])
    (hfraction : fraction ≠ []) :
    readFixed (((if neg then ['-'] else []) ++ whole ++ '.' :: fraction).map .scalar) =
      some (decimalValue (((if neg then ['-'] else []) ++ whole ++ '.' :: fraction).map .scalar)) := by
  have hpoint : ∀ c ∈ whole, c ≠ '.' := fun c hc => isDigit_ne (hw c hc) rfl
  obtain ⟨d, ds, rfl⟩ := List.exists_cons_of_ne_nil hwhole
  have hd : d ≠ '-' := isDigit_ne (hw d (by simp)) rfl
  have hdigits : (if ((if neg then ['-'] else []) ++ (d :: ds) ++ '.' :: fraction).head? = some '-'
      then ((if neg then ['-'] else []) ++ (d :: ds) ++ '.' :: fraction).tail
      else (if neg then ['-'] else []) ++ (d :: ds) ++ '.' :: fraction) =
        (d :: ds) ++ '.' :: fraction := by
    cases neg with
    | true => simp
    | false => simp [hd]
  unfold readFixed
  rw [chars?_map_scalar]
  simp only [Option.bind_eq_bind, Option.bind_some, hdigits]
  rw [List.takeWhile_append_of_pos (by simpa using hpoint),
    List.dropWhile_append_of_pos (by simpa using hpoint)]
  simp [isDigits_of_forall hwhole hw, isDigits_of_forall hfraction hf]

section
variable {places : Nat} {q : ℚ}

/-- The digits behind the point. -/
theorem length_fraction (hp : 0 < places) (q : ℚ) :
    ((Nat.toDigits 10 (roundHalfEven (|q| * 10 ^ places) % 10 ^ places)).leftpad places '0').length =
      places :=
  length_leftpad_toDigits hp (Nat.mod_lt _ (by positivity))

theorem decimalValue_formatFixed_eq_rounded (hp : 0 < places) (q : ℚ) :
    decimalValue (formatFixed places q) = rounded places q := by
  have hread := decimalValue_numeral (decide (q < 0))
    (fun _ => @isDigit_of_mem_toDigits (roundHalfEven (|q| * 10 ^ places) / 10 ^ places) _)
    (fun _ => @isDigit_of_mem_leftpad (roundHalfEven (|q| * 10 ^ places) % 10 ^ places) places _)
    Nat.toDigits_ne_nil
  rw [ofDigitChars_split hp, length_fraction hp] at hread
  simpa only [formatFixed, rounded, decide_eq_true_eq] using hread

/-- A formatted number is read back rounded to the decimals printed. -/
theorem readFixed_formatFixed (hp : 0 < places) (q : ℚ) :
    readFixed (formatFixed places q) = some (rounded places q) := by
  have hread := readFixed_numeral (decide (q < 0))
    (fun _ => @isDigit_of_mem_toDigits (roundHalfEven (|q| * 10 ^ places) / 10 ^ places) _)
    (fun _ => @isDigit_of_mem_leftpad (roundHalfEven (|q| * 10 ^ places) % 10 ^ places) places _)
    Nat.toDigits_ne_nil (List.ne_nil_of_length_pos (by rw [length_fraction hp]; exact hp))
  rw [← decimalValue_formatFixed_eq_rounded hp]
  simpa only [formatFixed, decide_eq_true_eq] using hread

/-- A number with at most `places` decimals is not changed. -/
theorem rounded_eq_self (hp : 0 < places) {n : ℤ} (hq : q = n / 10 ^ places) :
    rounded places q = q := by
  rw [← decimalValue_formatFixed_eq_rounded hp, decimalValue_formatFixed hp hq]

end

/-! ## Fields -/

namespace Str

/-- The text between a fixed beginning and a fixed end. -/
def between? (before after s : Str) : Option Str :=
  (s.dropPrefix? before).bind fun rest => rest.dropSuffix? after

theorem between?_append (before after s : Str) :
    between? before after (before ++ s ++ after) = some s := by
  unfold between?
  rw [List.append_assoc, List.dropPrefix?_append_of_beq _ (beq_self_eq_true _)]
  exact List.dropSuffix?_eq_some_iff.mpr ⟨after, rfl, beq_self_eq_true _⟩

end Str

/-- What comes behind the last `x`, if there is one. -/
def afterLast? {α : Type} [DecidableEq α] (x : α) (xs : List α) : Option (List α) :=
  if x ∈ xs then some (xs.reverse.takeWhile (· ≠ x)).reverse else none

theorem afterLast?_append {α : Type} [DecidableEq α] {x : α} (before : List α) {after : List α}
    (h : x ∉ after) : afterLast? x (before ++ x :: after) = some after := by
  have hne : ∀ y ∈ after.reverse, decide (y ≠ x) := by
    intro y hy
    simpa using fun heq : y = x => h (heq ▸ List.mem_reverse.mp hy)
  unfold afterLast?
  rw [if_pos (by simp), List.reverse_append, List.reverse_cons, List.append_assoc,
    List.takeWhile_append_of_pos hne]
  simp

end Python
