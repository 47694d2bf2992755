-- SUMMARY: How the scanner passes over text whose brackets are escaped, and how the tail of a link is read.
import ResearchSynthesis.CommonMark.Inline
import Mathlib.Algebra.Group.Nat.Even
import Mathlib.Algebra.Ring.Parity
import Mathlib.Data.List.TakeWhile

/-!
# Escaped text

Whether a character is escaped depends on the length of the run of backslashes
in front of it. `scan_inert` is the rule for text that leaves the scanner alone:
its brackets are escaped and none of its live angle brackets opens an autolink.
-/

namespace CommonMark
open Python

/-! ## Runs of backslashes -/

/-- The number of backslashes that `s` ends in. -/
def backslashRun (s : Str) : Nat := (s.reverse.takeWhile (· = .scalar '\\')).length

/-- A punctuation character after `s` is literal. -/
def escaped (s : Str) : Bool := backslashRun s % 2 = 1

theorem escaped_iff_odd {s : Str} : escaped s ↔ Odd (backslashRun s) := by
  simp [escaped, Nat.odd_iff]

@[simp] theorem backslashRun_nil : backslashRun [] = 0 := rfl

@[simp] theorem escaped_nil : escaped [] = false := rfl

theorem backslashRun_append_backslash (s : Str) :
    backslashRun (s ++ [.scalar '\\']) = backslashRun s + 1 := by
  simp [backslashRun]

theorem backslashRun_append_of_ne (s : Str) {c : CodePoint} (h : c ≠ .scalar '\\') :
    backslashRun (s ++ [c]) = 0 := by
  simp [backslashRun, h]

/-- After another backslash the next character is escaped if this one was not. -/
@[simp] theorem escaped_append_backslash (s : Str) :
    escaped (s ++ [.scalar '\\']) = !escaped s := by
  simp only [escaped, backslashRun_append_backslash]
  rcases Nat.mod_two_eq_zero_or_one (backslashRun s) with h | h <;> simp [Nat.add_mod, h]

theorem escaped_append_of_ne (s : Str) {c : CodePoint} (h : c ≠ .scalar '\\') :
    escaped (s ++ [c]) = false := by
  simp [escaped, backslashRun_append_of_ne s h]

/-- Text that does not end in a backslash has no part in the runs after it. -/
theorem backslashRun_append_of_run_zero {s : Str} (h : backslashRun s = 0) (t : Str) :
    backslashRun (s ++ t) = backslashRun t := by
  induction t using List.reverseRecOn with
  | nil => simpa using h
  | append_singleton t c ih =>
    rw [← List.append_assoc]
    by_cases hc : c = .scalar '\\'
    · rw [hc, backslashRun_append_backslash, backslashRun_append_backslash, ih]
    · rw [backslashRun_append_of_ne _ hc, backslashRun_append_of_ne _ hc]

theorem escaped_append_of_run_zero {s : Str} (h : backslashRun s = 0) (t : Str) :
    escaped (s ++ t) = escaped t := by
  rw [escaped, backslashRun_append_of_run_zero h, escaped]

def isBracket (c : CodePoint) : Bool := c = .scalar '[' || c = .scalar ']'

/-- Every bracket of `s` comes after an odd number of backslashes. -/
def BracketsEscaped (s : Str) : Prop :=
  ∀ p c q, s = p ++ c :: q → isBracket c → Odd (backslashRun p)

/-! ## Passing over inert text -/

/-- Every bracket of `t` is escaped when `t` comes after `pre`. -/
def BracketsEscapedAfter (pre t : Str) : Prop :=
  ∀ p c q, t = p ++ c :: q → isBracket c → escaped (pre ++ p)

/-- Some live angle bracket of `t`, between `pre` and `rest`, opens an autolink. -/
def OpensAutolink (pre t rest : Str) : Prop :=
  ∃ p q, t = p ++ .scalar '<' :: q ∧ escaped (pre ++ p) = false ∧
    (autolinkBody? (q ++ rest)).isSome

theorem BracketsEscapedAfter.tail {pre t : Str} {c : CodePoint}
    (h : BracketsEscapedAfter pre (c :: t)) : BracketsEscapedAfter (pre ++ [c]) t := by
  intro p d q hsplit hd
  simpa using h (c :: p) d q (by rw [hsplit]; rfl) hd

theorem OpensAutolink.of_tail {pre t rest : Str} {c : CodePoint}
    (h : OpensAutolink (pre ++ [c]) t rest) : OpensAutolink pre (c :: t) rest := by
  obtain ⟨p, q, hsplit, hlive, hbody⟩ := h
  exact ⟨c :: p, q, by rw [hsplit]; rfl, by simpa using hlive, hbody⟩

/-- An autolink is opened by the first character or later on. -/
theorem OpensAutolink.cases_cons {pre t rest : Str} {c : CodePoint}
    (h : OpensAutolink pre (c :: t) rest) :
    (c = .scalar '<' ∧ escaped pre = false ∧ (autolinkBody? (t ++ rest)).isSome) ∨
      OpensAutolink (pre ++ [c]) t rest := by
  obtain ⟨p, q, hsplit, hlive, hbody⟩ := h
  cases p with
  | nil =>
    obtain ⟨rfl, rfl⟩ := List.cons.inj hsplit
    exact .inl ⟨rfl, by simpa using hlive, hbody⟩
  | cons d p =>
    obtain ⟨rfl, rfl⟩ := List.cons.inj hsplit
    exact .inr ⟨p, q, rfl, by simpa using hlive, hbody⟩

/-- The scanner passes over one character that opens and closes nothing. -/
theorem scan_cons_inert {pre t : Str} {c : CodePoint} {stack : List Opener}
    (hbracket : isBracket c → escaped pre)
    (hbang : c = .scalar '!' → t.head? ≠ some (.scalar '['))
    (hangle : c = .scalar '<' → escaped pre = false → autolinkBody? t = none) :
    scan 0 (escaped pre) stack (c :: t) = scan 0 (escaped (pre ++ [c])) stack t := by
  have hpunct : isAsciiPunctuation (.scalar '\\') := by decide
  simp only [scan]
  by_cases hslash : c = .scalar '\\'
  · -- A backslash escapes the next character, or is itself escaped.
    subst hslash
    cases h : escaped pre <;> simp [h, hpunct]
  rw [escaped_append_of_ne pre hslash]
  by_cases hlit : escaped pre && isAsciiPunctuation c
  · rw [if_pos hlit]
  have hlive : isAsciiPunctuation c → escaped pre = false := fun hp => by simpa [hp] using hlit
  rw [if_neg hlit, if_neg hslash]
  by_cases hlt : c = .scalar '<'
  · subst hlt
    rw [if_pos rfl, hangle rfl (hlive (by decide))]
  rw [if_neg hlt]
  by_cases hb : c = .scalar '!'
  · rw [if_neg (by simp [hbang hb]), if_neg (by rw [hb]; decide), if_neg (by rw [hb]; decide)]
  rw [if_neg (by simp [hb])]
  have hnot : ¬ isBracket c := by
    intro hbr
    have hp : isAsciiPunctuation c := by
      rcases (by simpa [isBracket] using hbr : c = .scalar '[' ∨ c = .scalar ']') with rfl | rfl <;>
        decide
    rw [hlive hp] at hbracket
    simpa using hbracket hbr
  rw [if_neg (by rintro rfl; exact hnot rfl), if_neg (by rintro rfl; exact hnot rfl)]

theorem BracketsEscapedAfter.head {pre t : Str} {c : CodePoint}
    (h : BracketsEscapedAfter pre (c :: t)) : isBracket c → escaped pre := fun hc => by
  simpa using h [] c t rfl hc

/-- An escaped bracket is no image opener: there is a backslash in between. -/
theorem BracketsEscapedAfter.bang {pre t rest : Str} {c : CodePoint}
    (h : BracketsEscapedAfter pre (c :: t)) (hrest : rest.head? ≠ some (.scalar '[')) :
    c = .scalar '!' → (t ++ rest).head? ≠ some (.scalar '[') := by
  rintro rfl
  cases t with
  | nil => simpa using hrest
  | cons d t =>
    intro hd
    obtain rfl : d = .scalar '[' := by simpa using hd
    have := h [.scalar '!'] _ t rfl rfl
    rw [escaped_append_of_ne pre (by decide)] at this
    cases this

/-- The scanner passes over inert text. -/
theorem scan_inert {pre t rest : Str} {stack : List Opener} (hbracket : BracketsEscapedAfter pre t)
    (hrest : rest.head? ≠ some (.scalar '[')) (hauto : ¬ OpensAutolink pre t rest) :
    scan 0 (escaped pre) stack (t ++ rest) = scan 0 (escaped (pre ++ t)) stack rest := by
  induction t generalizing pre with
  | nil => simp
  | cons c t ih =>
    have hstep : scan 0 (escaped pre) stack (c :: (t ++ rest)) =
        scan 0 (escaped (pre ++ [c])) stack (t ++ rest) :=
      scan_cons_inert hbracket.head (hbracket.bang hrest) fun hc hlive => by
        by_contra hbody
        exact hauto ⟨[], t, by rw [hc]; rfl, by simpa using hlive, Option.isSome_iff_ne_none.mpr hbody⟩
    rw [List.cons_append, hstep, ih hbracket.tail fun h => hauto h.of_tail]
    simp

/-- Text with escaped brackets that opens an autolink shows one first. -/
theorem scan_autolink {pre t rest : Str} {stack : List Opener}
    (hbracket : BracketsEscapedAfter pre t) (hrest : rest.head? ≠ some (.scalar '['))
    (hauto : OpensAutolink pre t rest) :
    ∃ body more, scan 0 (escaped pre) stack (t ++ rest) = .autolink body :: more := by
  induction t generalizing pre with
  | nil =>
    obtain ⟨p, q, hsplit, -⟩ := hauto
    simp at hsplit
  | cons c t ih =>
    by_cases hhere : c = .scalar '<' ∧ escaped pre = false ∧ (autolinkBody? (t ++ rest)).isSome
    · obtain ⟨rfl, hlive, hbody⟩ := hhere
      obtain ⟨body, hbody⟩ := Option.isSome_iff_exists.mp hbody
      refine ⟨body, scan (body.length + 1) false stack (t ++ rest), ?_⟩
      simp only [List.cons_append, scan, hlive]
      rw [if_neg (by simp), if_neg (by decide), if_pos trivial, hbody]
    · have hstep : scan 0 (escaped pre) stack (c :: (t ++ rest)) =
          scan 0 (escaped (pre ++ [c])) stack (t ++ rest) :=
        scan_cons_inert hbracket.head (hbracket.bang hrest) fun hc hlive => by
          by_contra hbody
          exact hhere ⟨hc, hlive, Option.isSome_iff_ne_none.mpr hbody⟩
      obtain ⟨body, more, hscan⟩ :=
        ih hbracket.tail (hauto.cases_cons.resolve_left hhere)
      exact ⟨body, more, by rw [List.cons_append, hstep, hscan]⟩

/-! ## Where no link can end -/

theorem linkTail?_eq_none {s : Str} (h : s.head? ≠ some (.scalar '(')) : linkTail? s = none := by
  unfold linkTail?
  split
  · simp at h
  · rfl

theorem closeBracket_of_linkTail?_eq_none {stack : List Opener} {s : Str}
    (h : linkTail? s = none) : closeBracket stack s = ([], 0, stack.tail) := by
  cases stack with
  | nil => rfl
  | cons o stack => cases ho : o.active <;> simp [closeBracket, ho, h]

/-- Where no closing bracket has an opening parenthesis after it, the scanner
    finds autolinks at most. -/
theorem scan_of_no_linkTail {skip : Nat} {esc : Bool} {stack : List Opener} {s : Str}
    (h : ∀ p q, s = p ++ .scalar ']' :: q → q.head? ≠ some (.scalar '(')) :
    ∀ x ∈ scan skip esc stack s, ∃ body, x = .autolink body := by
  induction s generalizing skip esc stack with
  | nil => simp [scan]
  | cons c s ih =>
    have hs : ∀ p q, s = p ++ .scalar ']' :: q → q.head? ≠ some (.scalar '(') :=
      fun p q hsplit => h (c :: p) q (by rw [hsplit]; rfl)
    intro x hx
    cases skip with
    | succ skip => exact ih hs x (by simpa [scan] using hx)
    | zero =>
      simp only [scan] at hx
      split at hx
      · exact ih hs x hx
      split at hx
      · exact ih hs x hx
      split at hx
      · split at hx
        · rcases List.mem_cons.mp hx with rfl | hx
          · exact ⟨_, rfl⟩
          · exact ih hs x hx
        · exact ih hs x hx
      split at hx
      · exact ih hs x hx
      split at hx
      · exact ih hs x hx
      split at hx
      · next hc =>
        have htail : linkTail? s = none := linkTail?_eq_none (h [] s (by rw [hc]; rfl))
        rw [closeBracket_of_linkTail?_eq_none htail] at hx
        exact ih hs x (by simpa using hx)
      · exact ih hs x hx

/-! ## The tail of a link -/

/-- The characters that are nothing special in a destination, backslashes apart. -/
def isPlainInDestination (c : CodePoint) : Bool :=
  c ≠ .scalar '(' && c ≠ .scalar ')' && c ≠ .scalar ' ' && !isAsciiControl c

theorem not_isAsciiControl_of_isAsciiPunctuation {c : CodePoint} (h : isAsciiPunctuation c) :
    isAsciiControl c = false := by
  cases c with
  | surrogate n => cases h
  | scalar c =>
    have hall : ∀ d ∈ "!\"#$%&'()*+,-./:;<=>?@[\\]^_\x60\x7b|\x7d~".toList,
        isAsciiControl (.scalar d) = false := by
      simp [isAsciiControl, CodePoint.toNat]
    exact hall c (by simpa [isAsciiPunctuation] using h)

theorem bareDestination_plain (pre : Str) {u : Str} (rest : Str)
    (h : ∀ c ∈ u, isPlainInDestination c) :
    bareDestination (escaped pre) 0 (u ++ rest) =
      (bareDestination (escaped (pre ++ u)) 0 rest).map fun (dest, rest) => (u ++ dest, rest) := by
  induction u generalizing pre with
  | nil => simp
  | cons c u ih =>
    have hc : c ≠ .scalar '(' ∧ c ≠ .scalar ')' ∧ c ≠ .scalar ' ' ∧ isAsciiControl c = false := by
      simpa [isPlainInDestination, and_assoc] using h c (by simp)
    have hpunct : isAsciiPunctuation (.scalar '\\') := by decide
    have hstep : bareDestination (escaped pre) 0 (c :: (u ++ rest)) =
        (bareDestination (escaped (pre ++ [c])) 0 (u ++ rest)).map
          fun (dest, rest) => (c :: dest, rest) := by
      simp only [bareDestination]
      by_cases hslash : c = .scalar '\\'
      · subst hslash
        cases he : escaped pre <;> simp [he, hpunct]
      · rw [escaped_append_of_ne pre hslash]
        split
        · rfl
        · simp [hc]
    rw [List.cons_append, hstep, ih (pre ++ [c]) fun d hd => h d (List.mem_cons_of_mem _ hd)]
    simp [Option.map_map, Function.comp_def]

/-- A destination ends in front of a control character, escaped or not. -/
theorem bareDestination_control {esc : Bool} {c : CodePoint} {s : Str} (h : isAsciiControl c) :
    bareDestination esc 0 (c :: s) = some ([], c :: s) := by
  have hne {d : CodePoint} (hd : isAsciiControl d = false) : c ≠ d := by
    rintro rfl
    rw [h] at hd
    cases hd
  have hpunct : isAsciiPunctuation c = false := by
    by_contra hp
    rw [not_isAsciiControl_of_isAsciiPunctuation (by simpa using hp)] at h
    cases h
  simp [bareDestination, hpunct, h, hne (by decide : isAsciiControl (.scalar '\\') = false),
    hne (by decide : isAsciiControl (.scalar '(') = false),
    hne (by decide : isAsciiControl (.scalar ')') = false)]

/-- Past the opening parenthesis, a link's tail starts with its destination. -/
theorem linkTail?_of_bare {s dest rest : Str} (hhead : ∀ c ∈ s.head?, c ≠ .scalar '<' ∧ isBlank c = false)
    (hdest : bareDestination false 0 s = some (dest, rest))
    (hrest : ∀ c ∈ rest.head?, isBlank c = false) :
    linkTail? (.scalar '(' :: s) = (afterClose? rest).map fun after => (dest, after) := by
  have hblank (t : Str) (ht : ∀ c ∈ t.head?, isBlank c = false) : t.dropWhile isBlank = t := by
    cases t with
    | nil => rfl
    | cons c t => simp [ht c rfl]
  have hs : destination? s = bareDestination false 0 s := by
    unfold destination?
    split
    · exact absurd rfl (hhead _ rfl).1
    · rfl
  simp only [linkTail?, hblank s fun c hc => (hhead c hc).2, hs, hdest, hblank rest hrest]
  cases afterClose? rest <;> simp

end CommonMark
