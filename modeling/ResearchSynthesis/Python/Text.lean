-- SUMMARY: Python strings as lists of code points: whitespace, `split`, `join`, `strip`, `replace`, `lower`.
import Mathlib.Data.List.Basic
import Mathlib.Data.List.Infix
import Mathlib.Tactic.Cases

/-!
# Python strings

A Python `str` is a sequence of Unicode code points, and the lone surrogates
U+D800..U+DFFF are code points like any other. `Char` excludes them, so a code
point is a `Char` or a surrogate, and a string is a list of code points.

What the Unicode tables decide beyond the Basic Latin block (which characters
`repr` prints and how `lower` maps them) is a parameter, `UnicodeData`.
-/

namespace Python

/-- A Unicode code point: a scalar value, or the lone surrogate U+D800 + `n`. -/
inductive CodePoint where
  | scalar (c : Char)
  | surrogate (n : Fin 0x800)
  deriving DecidableEq

instance : Coe Char CodePoint := ⟨.scalar⟩

/-- A Python `str`. -/
abbrev Str := List CodePoint

/-- A string literal of the source. -/
def lit (s : String) : Str := s.toList.map .scalar

namespace CodePoint

/-- The code point's number. -/
def toNat : CodePoint → Nat
  | .scalar c => c.toNat
  | .surrogate n => 0xD800 + n

def isSurrogate : CodePoint → Bool
  | .scalar _ => false
  | .surrogate _ => true

/-- The scalar value, if the code point is one. -/
def toChar? : CodePoint → Option Char
  | .scalar c => some c
  | .surrogate _ => none

/-- The characters `str.split()` splits at and `str.strip()` drops. -/
def whitespace : List CodePoint :=
  ['\t', '\n', '\x0b', '\x0c', '\r', '\x1c', '\x1d', '\x1e', '\x1f', ' ', '\u0085', '\u00a0',
   '\u1680', '\u2000', '\u2001', '\u2002', '\u2003', '\u2004', '\u2005', '\u2006', '\u2007',
   '\u2008', '\u2009', '\u200a', '\u2028', '\u2029', '\u202f', '\u205f', '\u3000']

def isSpace (c : CodePoint) : Bool := c ∈ whitespace

theorem isSpace_surrogate (n : Fin 0x800) : isSpace (.surrogate n) = false := by
  simp [isSpace, whitespace]

@[simp] theorem filterMap_toChar?_map_scalar (cs : List Char) :
    (cs.map CodePoint.scalar).filterMap toChar? = cs := by
  induction cs with
  | nil => rfl
  | cons c cs ih => simp [toChar?, ih]

end CodePoint

/-! ## Case and printability -/

/-- The part of the Unicode character database that `str` consults. The source
never looks at a non-ASCII character other than through these tables, and the
laws are what the tables say about the ASCII range: lower-casing is the ASCII
one there, and the only other characters with an ASCII letter in their
lower-case mapping are the Kelvin sign and the dotted capital I. -/
class UnicodeData where
  isPrintable : Char → Bool
  lower : Char → List Char
  isPrintable_ascii : ∀ c : Char, c.toNat < 0x80 →
    isPrintable c = (decide (0x20 ≤ c.toNat) && decide (c.toNat < 0x7f))
  lower_ne_nil : ∀ c, lower c ≠ []
  lower_ascii : ∀ c : Char, c.toNat < 0x80 → lower c = [c.toLower]
  lower_nonAscii : ∀ c : Char, 0x80 ≤ c.toNat → ∀ d ∈ lower c, d.toNat < 0x80 →
    (c = '\u212a' ∧ d = 'k') ∨ (c = '\u0130' ∧ d = 'i')

/-- Tables that are right on the Basic Latin block and map every other character
    to itself, the two exceptional ones apart. -/
abbrev UnicodeData.basicLatin : UnicodeData where
  isPrintable c := decide (0x20 ≤ c.toNat) && decide (c.toNat < 0x7f)
  lower c :=
    if c.toNat < 0x80 then [c.toLower]
    else if c = '\u212a' then ['k']
    else if c = '\u0130' then ['i', '\u0307']
    else [c]
  isPrintable_ascii := fun _ _ => rfl
  lower_ne_nil := by
    intro c
    repeat' split
    all_goals simp
  lower_ascii := fun c hc => if_pos hc
  lower_nonAscii := by
    intro c hc d hd hlt
    rw [if_neg (by omega)] at hd
    split at hd
    · next h => exact .inl ⟨h, List.mem_singleton.mp hd⟩
    · split at hd
      · next h =>
        rcases List.mem_pair.mp hd with rfl | rfl
        · exact .inr ⟨h, rfl⟩
        · exact absurd hlt (by decide)
      · rw [List.mem_singleton.mp hd] at hlt
        omega

namespace Str

/-- `s.lower()`, character by character. A capital sigma at the end of a word has
    another small letter, which is no more an ASCII one. -/
def lower [UnicodeData] (s : Str) : Str :=
  s.flatMap fun
    | .scalar c => (UnicodeData.lower c).map .scalar
    | .surrogate n => [.surrogate n]

/-! ## Splitting and joining -/

/-- `s.split()`: the maximal runs of non-whitespace. -/
def split (s : Str) : List Str :=
  (s.splitOnP CodePoint.isSpace).filter (!·.isEmpty)

/-- `sep.join(xs)`. -/
def join (sep : Str) (xs : List Str) : Str := sep.intercalate xs

/-- `s.strip(chars)` for the set of characters on which `p` holds. -/
def stripBy (p : CodePoint → Bool) (s : Str) : Str :=
  ((s.dropWhile p).reverse.dropWhile p).reverse

/-- `s.strip()`. -/
abbrev strip (s : Str) : Str := s.stripBy CodePoint.isSpace

/-- `s.replace(c, new)` for a one-character pattern. -/
def replace (s : Str) (c : CodePoint) (new : Str) : Str :=
  s.flatMap fun d => if d = c then new else [d]

theorem mem_of_mem_stripBy {p : CodePoint → Bool} {s : Str} {c : CodePoint}
    (h : c ∈ s.stripBy p) : c ∈ s := by
  rw [stripBy, List.mem_reverse] at h
  have hfront := List.mem_reverse.mp ((List.dropWhile_suffix p).subset h)
  exact (List.dropWhile_suffix p).subset hfront

/-! ## Joining -/

@[simp] theorem join_nil {sep : Str} : join sep [] = [] := rfl

@[simp] theorem join_singleton {sep x : Str} : join sep [x] = x := List.intercalate_singleton

@[simp] theorem join_cons_cons {sep x y : Str} {xs : List Str} :
    join sep (x :: y :: xs) = x ++ sep ++ join sep (y :: xs) := List.intercalate_cons_cons

theorem mem_join {c : CodePoint} {sep : Str} {xs : List Str} (h : c ∈ join sep xs) :
    c ∈ sep ∨ ∃ x ∈ xs, c ∈ x := by
  induction xs with
  | nil => simp at h
  | cons x xs ih =>
    cases xs with
    | nil => exact .inr ⟨x, by simp, by simpa using h⟩
    | cons y ys =>
      rw [join_cons_cons, List.mem_append, List.mem_append] at h
      rcases h with (hx | hsep) | hys
      · exact .inr ⟨x, by simp, hx⟩
      · exact .inl hsep
      · rcases ih hys with hsep | ⟨z, hz, hc⟩
        · exact .inl hsep
        · exact .inr ⟨z, List.mem_cons_of_mem _ hz, hc⟩

theorem mem_join_of_mem {c : CodePoint} {sep x : Str} {xs : List Str} (hx : x ∈ xs) (hc : c ∈ x) :
    c ∈ join sep xs := by
  induction xs with
  | nil => cases hx
  | cons y ys ih =>
    rcases List.mem_cons.mp hx with rfl | hx
    · cases ys with
      | nil => simpa using hc
      | cons z zs => simp [hc]
    · cases ys with
      | nil => cases hx
      | cons z zs =>
        rw [join_cons_cons]
        exact List.mem_append_right _ (ih hx)

theorem join_append {sep : Str} {xs ys : List Str} (hxs : xs ≠ []) (hys : ys ≠ []) :
    join sep (xs ++ ys) = join sep xs ++ sep ++ join sep ys := by
  induction xs with
  | nil => exact absurd rfl hxs
  | cons x xs ih =>
    cases xs with
    | nil =>
      obtain ⟨y, ys, rfl⟩ := List.exists_cons_of_ne_nil hys
      simp
    | cons z zs =>
      rw [List.cons_append, List.cons_append, join_cons_cons, join_cons_cons, ← List.cons_append,
        ih (by simp)]
      simp

theorem suffix_join (sep x : Str) (xs : List Str) : x <:+ join sep (xs ++ [x]) := by
  by_cases hxs : xs = []
  · simp [hxs]
  · rw [join_append hxs (by simp), join_singleton]
    exact List.suffix_append _ _

/-- Joining in two steps with one separator is joining once. -/
theorem join_map_join {sep : Str} {xss : List (List Str)} (h : ∀ xs ∈ xss, xs ≠ []) :
    join sep (xss.map (join sep)) = join sep xss.flatten := by
  induction xss with
  | nil => rfl
  | cons xs xss ih =>
    have hrest : ∀ ys ∈ xss, ys ≠ [] := fun ys hys => h ys (List.mem_cons_of_mem _ hys)
    cases xss with
    | nil => simp
    | cons ys yss =>
      have hflat : (ys :: yss).flatten ≠ [] := by
        simpa using fun hys => absurd hys (hrest ys (by simp))
      rw [List.flatten_cons, join_append (h xs (by simp)) hflat, ← ih hrest, List.map_cons,
        List.map_cons, join_cons_cons]

/-! ## Characters of a split string -/

theorem isSpace_eq_false_of_mem_splitOnP {s w : Str} (hw : w ∈ s.splitOnP CodePoint.isSpace)
    {c : CodePoint} (hc : c ∈ w) : c.isSpace = false := by
  induction s generalizing w with
  | nil => simp only [List.splitOnP_nil, List.mem_singleton] at hw; subst hw; cases hc
  | cons d s ih =>
    rw [List.splitOnP_cons_eq_if_modifyHead] at hw
    by_cases hd : d.isSpace
    · rw [if_pos hd, List.mem_cons] at hw
      rcases hw with rfl | hw
      · cases hc
      · exact ih hw hc
    · rw [if_neg hd] at hw
      obtain ⟨v, vs, hvs⟩ := List.exists_cons_of_ne_nil (List.splitOnP_ne_nil CodePoint.isSpace s)
      rw [hvs, List.modifyHead_cons, List.mem_cons] at hw
      rcases hw with rfl | hw
      · rcases List.mem_cons.mp hc with rfl | hc
        · simpa using hd
        · exact ih (by rw [hvs]; exact List.mem_cons_self) hc
      · exact ih (by rw [hvs]; exact List.mem_cons_of_mem _ hw) hc

/-- A word of `s.split()` holds no whitespace. -/
theorem isSpace_eq_false_of_mem_split {s w : Str} (hw : w ∈ s.split) {c : CodePoint} (hc : c ∈ w) :
    c.isSpace = false :=
  isSpace_eq_false_of_mem_splitOnP (List.mem_filter.mp hw).1 hc

theorem flatten_splitOnP (p : CodePoint → Bool) (s : Str) :
    (s.splitOnP p).flatten = s.filter (!p ·) := by
  induction s with
  | nil => rfl
  | cons c s ih =>
    rw [List.splitOnP_cons_eq_if_modifyHead]
    by_cases hc : p c
    · simp [hc, ih]
    · obtain ⟨v, vs, hvs⟩ := List.exists_cons_of_ne_nil (List.splitOnP_ne_nil p s)
      rw [hvs, List.flatten_cons] at ih
      simp [hc, hvs, ← ih]

theorem flatten_filter_nonempty (xs : List Str) : (xs.filter (!·.isEmpty)).flatten = xs.flatten := by
  induction xs with
  | nil => rfl
  | cons x xs ih => cases x <;> simp_all

theorem join_nil_left (xs : List Str) : join [] xs = xs.flatten := by
  induction xs with
  | nil => rfl
  | cons x xs ih =>
    cases xs with
    | nil => simp
    | cons y ys => rw [join_cons_cons, ih]; simp

/-- `"".join(s.split())` drops the whitespace of `s` and nothing else. -/
theorem join_nil_split (s : Str) : join [] s.split = s.filter (!·.isSpace) := by
  rw [join_nil_left, split, flatten_filter_nonempty, flatten_splitOnP]

theorem mem_split_iff {s : Str} {c : CodePoint} :
    (∃ w ∈ s.split, c ∈ w) ↔ c ∈ s ∧ c.isSpace = false := by
  have h := congrArg (c ∈ ·) ((join_nil_left s.split).symm.trans (join_nil_split s))
  simpa using h

end Str

end Python
