-- SUMMARY: List items with one inline link or none: when `- [t](u)` and `- t` hold just that.
import ResearchSynthesis.CommonMark.Escaping

/-!
# Items with one link

The line `- [t](u)` holds the link it looks like, and no other span, under
conditions on `t` and `u` that the scanner's rules decide; so does `- t` hold
none.
-/

namespace CommonMark
open Python

/-! ## A destination in parentheses -/

/-- The characters of `u` take part in a destination as they are, backslashes and
    control characters apart, and `u` does not start one in angle brackets. -/
structure Parenthesizable (u : Str) : Prop where
  ne_nil : u ≠ []
  head : u.head? ≠ some (.scalar '<')
  chars : ∀ c ∈ u, c ≠ .scalar '(' ∧ c ≠ .scalar ')' ∧ isBlank c = false

/-- `(u)` -/
def parenthesized (u : Str) : Str := .scalar '(' :: (u ++ [.scalar ')'])

section
variable {u : Str}

theorem Parenthesizable.isPlainInDestination (h : Parenthesizable u) {c : CodePoint} (hc : c ∈ u)
    (hctrl : isAsciiControl c = false) : isPlainInDestination c := by
  have hspace : c ≠ .scalar ' ' := by
    rintro rfl
    exact absurd (h.chars _ hc).2.2 (by decide)
  simp [CommonMark.isPlainInDestination, h.chars c hc, hspace, hctrl]

theorem Parenthesizable.head_append (h : Parenthesizable u) (rest : Str) :
    ∀ c ∈ (u ++ rest).head?, c ≠ .scalar '<' ∧ isBlank c = false := by
  obtain ⟨d, v, rfl⟩ := List.exists_cons_of_ne_nil h.ne_nil
  intro c hc
  obtain rfl : d = c := by simpa using hc
  exact ⟨fun hd => h.head (by rw [hd]; rfl), (h.chars d (by simp)).2.2⟩

theorem exists_first_control (h : u.any isAsciiControl) :
    ∃ a c b, u = a ++ c :: b ∧ (∀ d ∈ a, isAsciiControl d = false) ∧ isAsciiControl c := by
  obtain ⟨c, b, hb⟩ : ∃ c b, u.dropWhile (!isAsciiControl ·) = c :: b := by
    refine List.exists_cons_of_ne_nil fun hnil => ?_
    rw [List.dropWhile_eq_nil_iff] at hnil
    obtain ⟨c, hc, hctrl⟩ := List.any_eq_true.mp h
    simpa [hctrl] using hnil c hc
  refine ⟨u.takeWhile (!isAsciiControl ·), c, b, ?_, fun d hd => ?_, ?_⟩
  · rw [← hb, List.takeWhile_append_dropWhile]
  · simpa using List.mem_takeWhile_imp hd
  · have hhead := List.head?_dropWhile_not (!isAsciiControl ·) u
    rw [hb] at hhead
    simpa using hhead

/-- The destination ends in front of the first control character. -/
theorem Parenthesizable.bareDestination_of_control (h : Parenthesizable u)
    (hany : u.any isAsciiControl) : ∃ a c b, u = a ++ c :: b ∧
      bareDestination false 0 (u ++ [.scalar ')']) = some (a, c :: (b ++ [.scalar ')'])) := by
  obtain ⟨a, c, b, hsplit, ha, hctrl⟩ := exists_first_control hany
  have hstep := bareDestination_plain [] (c :: (b ++ [.scalar ')']))
    fun d (hd : d ∈ a) => h.isPlainInDestination (by rw [hsplit]; simp [hd]) (ha d hd)
  rw [bareDestination_control hctrl] at hstep
  refine ⟨a, c, b, hsplit, ?_⟩
  rw [hsplit]
  simpa using hstep

/-- Without control characters the destination ends at the closing parenthesis,
    unless that is escaped: then it belongs to the destination. -/
theorem Parenthesizable.bareDestination_close (h : Parenthesizable u)
    (hnone : ∀ c ∈ u, isAsciiControl c = false) :
    bareDestination false 0 (u ++ [.scalar ')']) =
      some (if escaped u then (u ++ [.scalar ')'], []) else (u, [.scalar ')'])) := by
  have hpunct : isAsciiPunctuation (.scalar ')') := by decide
  have hstep := bareDestination_plain [] [.scalar ')']
    fun c hc => h.isPlainInDestination hc (hnone c hc)
  rw [escaped_nil, List.nil_append] at hstep
  rw [hstep]
  cases escaped u <;> simp [bareDestination, hpunct]

/-- The destination is all of `u` exactly when `u` holds no control character and
    leaves the closing parenthesis unescaped. -/
theorem Parenthesizable.bareDestination_iff (h : Parenthesizable u) :
    bareDestination false 0 (u ++ [.scalar ')']) = some (u, [.scalar ')']) ↔
      (∀ c ∈ u, isAsciiControl c = false) ∧ escaped u = false := by
  by_cases hany : u.any isAsciiControl
  · obtain ⟨a, c, b, hsplit, hdest⟩ := h.bareDestination_of_control hany
    rw [hdest]
    constructor
    · intro hall
      have hshort : a = u := congrArg Prod.fst (Option.some.inj hall)
      have hlength := congrArg List.length (hshort.trans hsplit)
      simp at hlength
    · rintro ⟨hnone, -⟩
      obtain ⟨c, hc, hctrl⟩ := List.any_eq_true.mp hany
      rw [hnone c hc] at hctrl
      cases hctrl
  · have hnone : ∀ c ∈ u, isAsciiControl c = false := by simpa using hany
    rw [h.bareDestination_close hnone]
    cases hesc : escaped u with
    | true => simp
    | false => simpa using hnone

/-- A label is followed by no link if `u` holds a control character. -/
theorem linkTail?_of_control (h : Parenthesizable u) (hany : u.any isAsciiControl) :
    linkTail? (parenthesized u) = none := by
  obtain ⟨a, c, b, hsplit, hdest⟩ := h.bareDestination_of_control hany
  have hc : c ∈ u := by rw [hsplit]; simp
  have hnone : afterClose? (c :: (b ++ [CodePoint.scalar ')'])) = none := by
    unfold afterClose?
    split
    · next heq => exact absurd (List.cons.inj heq).1 (h.chars c hc).2.1
    · rfl
  rw [parenthesized, linkTail?_of_bare (h.head_append _) hdest (by simpa using (h.chars c hc).2.2), hnone]
  rfl

/-- `(u)` after a label is the tail of a link exactly when `u` holds no control
    character and leaves the closing parenthesis unescaped. -/
theorem linkTail?_parenthesized (h : Parenthesizable u) :
    linkTail? (parenthesized u) =
      if u.any isAsciiControl || escaped u then none else some (u, []) := by
  by_cases hany : u.any isAsciiControl
  · rw [linkTail?_of_control h hany, hany]
    rfl
  have hnone : ∀ c ∈ u, isAsciiControl c = false := by simpa using hany
  have hdest := h.bareDestination_close hnone
  cases hesc : escaped u with
  | true =>
    -- The closing parenthesis belongs to the destination, and nothing is left.
    rw [hesc, if_pos rfl] at hdest
    rw [parenthesized, linkTail?_of_bare (h.head_append _) hdest (by simp)]
    simp [afterClose?]
  | false =>
    rw [hesc, if_neg (by simp)] at hdest
    rw [parenthesized, linkTail?_of_bare (h.head_append _) hdest (by simp [isBlank])]
    simpa [afterClose?] using hnone

end

/-! ## Items of a list -/

theorem spans_dash (t : Str) : spans (lit "- " ++ t) = scan 0 false [] t := rfl

theorem spans_dash_bracket (t : Str) :
    spans (lit "- [" ++ t) = scan 0 false [⟨false, true, t⟩] t := rfl

theorem bracketsEscapedAfter_nil {t : Str} (h : BracketsEscaped t) : BracketsEscapedAfter [] t :=
  fun p c q hsplit hc => escaped_iff_odd.mpr (h p c q hsplit hc)

theorem scan_length (esc : Bool) (stack : List Opener) (s : Str) :
    scan s.length esc stack s = [] := by
  induction s generalizing esc with
  | nil => rfl
  | cons c s ih =>
    rw [List.length_cons, scan]
    exact ih false

/-- Text with escaped brackets shows autolinks at most. -/
theorem spans_plain_iff {t : Str} (ht : BracketsEscaped t) :
    spans (lit "- " ++ t) = [] ↔ ¬ OpensAutolink [] t [] := by
  have hafter := bracketsEscapedAfter_nil ht
  rw [spans_dash]
  constructor
  · intro hscan hauto
    obtain ⟨body, more, h⟩ := @scan_autolink _ _ _ [] hafter (by simp) hauto
    rw [List.append_nil, escaped_nil, hscan] at h
    cases h
  · intro hauto
    have h := @scan_inert _ _ _ [] hafter (by simp) hauto
    simpa [scan] using h

/-! ## A linked item -/

/-- After the opening parenthesis of `(u)` there is no other. -/
theorem Parenthesizable.no_linkTail {u : Str} (hu : Parenthesizable u) :
    ∀ p q, parenthesized u = p ++ .scalar ']' :: q → q.head? ≠ some (.scalar '(') := by
  intro p q hsplit hhead
  cases p with
  | nil => exact absurd (List.cons.inj hsplit).1 (by decide)
  | cons d p =>
    obtain ⟨-, hu'⟩ := List.cons.inj hsplit
    obtain ⟨q, rfl⟩ := List.head?_eq_some_iff.mp hhead
    have hmem : CodePoint.scalar '(' ∈ u ++ [.scalar ')'] := by rw [hu']; simp
    rcases List.mem_append.mp hmem with hmem | hmem
    · exact (hu.chars _ hmem).1 rfl
    · exact absurd (List.mem_singleton.mp hmem) (by decide)

theorem scan_parenthesized_ne {u : Str} (hu : Parenthesizable u) {esc : Bool}
    {stack : List Opener} {label destination : Str} :
    scan 0 esc stack (parenthesized u) ≠ [.link label destination] := by
  intro h
  obtain ⟨body, hbody⟩ := scan_of_no_linkTail hu.no_linkTail (.link label destination)
    (by rw [h]; simp)
  cases hbody

/-- A live closing bracket makes the link when `(u)` is the tail of one. -/
theorem closeBracket_parenthesized {t u : Str}
    (htail : linkTail? (parenthesized u) = some (u, [])) :
    closeBracket [⟨false, true, t ++ .scalar ']' :: parenthesized u⟩] (parenthesized u) =
      ([.link t u], (parenthesized u).length, []) := by
  simp [closeBracket, htail]

theorem scan_closing_iff {t u : Str} (hu : Parenthesizable u) {esc : Bool} :
    scan 0 esc [⟨false, true, t ++ .scalar ']' :: parenthesized u⟩]
        (.scalar ']' :: parenthesized u) = [.link t u] ↔
      esc = false ∧ u.any isAsciiControl = false ∧ escaped u = false := by
  cases esc with
  | true =>
    have hstep (stack : List Opener) (s : Str) :
        scan 0 true stack (.scalar ']' :: s) = scan 0 false stack s := rfl
    rw [hstep]
    exact iff_of_false (scan_parenthesized_ne hu) (by simp)
  | false =>
    have hstep (stack : List Opener) (s : Str) : scan 0 false stack (.scalar ']' :: s) =
        (closeBracket stack s).1 ++
          scan (closeBracket stack s).2.1 false (closeBracket stack s).2.2 s := rfl
    have htail := linkTail?_parenthesized hu
    rw [hstep]
    by_cases hbad : u.any isAsciiControl || escaped u
    · rw [if_pos hbad] at htail
      rw [closeBracket_of_linkTail?_eq_none htail, List.nil_append]
      refine iff_of_false (scan_parenthesized_ne hu) ?_
      rintro ⟨-, hctrl, hesc⟩
      simp [hctrl, hesc] at hbad
    · rw [if_neg hbad] at htail
      rw [closeBracket_parenthesized htail]
      refine iff_of_true ?_ ⟨rfl, by simpa using hbad⟩
      rw [scan_length, List.append_nil]

/-- The spans of an item with one link, whose label has escaped brackets only. -/
theorem spans_linked_iff {t u : Str} (ht : BracketsEscaped t) (hu : Parenthesizable u) :
    spans (lit "- [" ++ t ++ lit "](" ++ u ++ lit ")") = [.link t u] ↔
      ¬ OpensAutolink [] t (.scalar ']' :: parenthesized u) ∧
        escaped t = false ∧ u.any isAsciiControl = false ∧ escaped u = false := by
  have hafter := bracketsEscapedAfter_nil ht
  have hline : lit "- [" ++ t ++ lit "](" ++ u ++ lit ")" =
      lit "- [" ++ (t ++ .scalar ']' :: parenthesized u) := by
    simp [lit, parenthesized]
  rw [hline, spans_dash_bracket]
  by_cases hauto : OpensAutolink [] t (.scalar ']' :: parenthesized u)
  · obtain ⟨body, more, hscan⟩ := @scan_autolink _ _ _ [⟨false, true, _⟩] hafter (by simp) hauto
    rw [escaped_nil] at hscan
    rw [hscan]
    exact iff_of_false (by simp) fun h => h.1 hauto
  · have hscan := @scan_inert _ _ _ [⟨false, true, t ++ .scalar ']' :: parenthesized u⟩]
      hafter (by simp) hauto
    rw [escaped_nil, List.nil_append] at hscan
    rw [hscan, scan_closing_iff hu]
    simp [hauto]

end CommonMark
