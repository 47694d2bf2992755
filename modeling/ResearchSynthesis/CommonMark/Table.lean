-- SUMMARY: Rows of a pipe table: where a line splits into cells, and the escaping that keeps a text in one cell.
import ResearchSynthesis.CommonMark.Escaping
import ResearchSynthesis.Python.Words

/-!
# Table rows

A row splits at its live pipes, those behind an even number of backslashes.
`escapeCell` is the substitution that makes a text safe for a cell: `CellText`
holds of what it returns, and `unescape` gives the text back.
-/

namespace CommonMark
open Python

/-! ## Splitting a row -/

/-- The pieces of a line between its live pipes; `pre` is the line up to here. -/
def splitCells (pre : Str) : Str → List Str
  | [] => [[]]
  | c :: s =>
    if c = .scalar '|' ∧ escaped pre = false then [] :: splitCells (pre ++ [c]) s
    else (splitCells (pre ++ [c]) s).modifyHead (c :: ·)

/-- The pieces of a line between its live pipes. -/
def cells (line : Str) : List Str := splitCells [] line

/-- The row that has the given cells, with a pipe at both ends. -/
def tableRow (texts : List Str) : Str := .scalar '|' :: texts.flatMap (· ++ [.scalar '|'])

/-- A text that may stand between two live pipes: its own pipes are escaped, and
    a pipe after it is not. -/
structure CellText (t : Str) : Prop where
  pipes : ∀ p q, t = p ++ .scalar '|' :: q → escaped p
  close : escaped t = false

theorem CellText.nil : CellText [] := ⟨by simp, rfl⟩

/-! ## Escaped or not, after a live position -/

/-- What comes before a live position does not decide what is escaped after it. -/
theorem escaped_append_of_live {pre : Str} (h : escaped pre = false) (s : Str) :
    escaped (pre ++ s) = escaped s := by
  induction s using List.reverseRecOn with
  | nil => simpa using h
  | append_singleton s c ih =>
    rw [← List.append_assoc]
    by_cases hc : c = .scalar '\\'
    · rw [hc, escaped_append_backslash, escaped_append_backslash, ih]
    · rw [escaped_append_of_ne _ hc, escaped_append_of_ne _ hc]

theorem splitCells_congr {pre pre' : Str} (h : escaped pre = escaped pre') (s : Str) :
    splitCells pre s = splitCells pre' s := by
  induction s generalizing pre pre' with
  | nil => rfl
  | cons c s ih =>
    have hnext : escaped (pre ++ [c]) = escaped (pre' ++ [c]) := by
      by_cases hc : c = .scalar '\\'
      · rw [hc, escaped_append_backslash, escaped_append_backslash, h]
      · rw [escaped_append_of_ne _ hc, escaped_append_of_ne _ hc]
    rw [splitCells, splitCells, h, ih hnext]

theorem splitCells_pipe {pre t rest : Str}
    (hpipes : ∀ p q, t = p ++ .scalar '|' :: q → escaped (pre ++ p))
    (hclose : escaped (pre ++ t) = false) :
    splitCells pre (t ++ .scalar '|' :: rest) =
      t :: splitCells (pre ++ t ++ [.scalar '|']) rest := by
  induction t generalizing pre with
  | nil => rw [List.append_nil] at hclose ⊢; simp [splitCells, hclose]
  | cons c t ih =>
    have hdead : ¬ (c = .scalar '|' ∧ escaped pre = false) := by
      rintro ⟨rfl, hlive⟩
      have := hpipes [] t rfl
      rw [List.append_nil, hlive] at this
      cases this
    have htail : ∀ p q, t = p ++ .scalar '|' :: q → escaped (pre ++ [c] ++ p) := by
      intro p q hsplit
      simpa using hpipes (c :: p) q (by rw [hsplit]; rfl)
    rw [List.cons_append, splitCells, if_neg hdead, ih htail (by simpa using hclose)]
    simp

/-- A cell ends at the pipe behind it. -/
theorem cells_pipe {t : Str} (ht : CellText t) (rest : Str) :
    cells (t ++ .scalar '|' :: rest) = t :: cells rest := by
  have hclose : escaped ([] ++ t) = false := ht.close
  rw [cells, splitCells_pipe ht.pipes hclose, cells]
  exact congrArg (t :: ·) (splitCells_congr (escaped_append_of_ne _ (by decide)) rest)

/-- A row splits into its cells, between two empty pieces. -/
theorem cells_tableRow {texts : List Str} (h : ∀ t ∈ texts, CellText t) :
    cells (tableRow texts) = [] :: texts ++ [[]] := by
  have hrest : ∀ ts : List Str, (∀ t ∈ ts, CellText t) →
      cells (ts.flatMap (· ++ [.scalar '|'])) = ts ++ [[]] := by
    intro ts hts
    induction ts with
    | nil => rfl
    | cons t ts ih =>
      rw [List.flatMap_cons, List.append_assoc, List.singleton_append,
        cells_pipe (hts t (by simp)), ih fun u hu => hts u (List.mem_cons_of_mem _ hu)]
      rfl
  have hopen : cells ([] ++ tableRow texts) = [] :: cells (texts.flatMap (· ++ [.scalar '|'])) :=
    cells_pipe CellText.nil _
  rw [← List.nil_append (tableRow texts), hopen, hrest texts h]
  rfl

/-! ## The pieces of a continued line -/

theorem length_splitCells_append (pre s t : Str) :
    (splitCells pre (s ++ t)).length + 1 =
      (splitCells pre s).length + (splitCells (pre ++ s) t).length := by
  induction s generalizing pre with
  | nil => simp [splitCells, add_comm]
  | cons c s ih =>
    have hnext := ih (pre ++ [c])
    rw [List.append_assoc, List.singleton_append] at hnext
    rw [List.cons_append, splitCells, splitCells]
    split
    · simp only [List.length_cons]
      omega
    · simpa using hnext

theorem length_splitCells_pos (pre s : Str) : 0 < (splitCells pre s).length := by
  induction s generalizing pre with
  | nil => simp [splitCells]
  | cons c s ih =>
    rw [splitCells]
    split
    · simp
    · simpa using ih (pre ++ [c])

/-- A line that goes on as a row has the row's pieces and its own, of which the
    last and the row's first are one. A dangling backslash takes the row's first
    pipe away. -/
theorem length_cells_append_tableRow (s : Str) (texts : List Str) :
    (cells (s ++ tableRow texts)).length + (if escaped s then 2 else 1) =
      (cells s).length + (cells (tableRow texts)).length := by
  have happend : (cells (s ++ tableRow texts)).length + 1 =
      (cells s).length + (splitCells s (tableRow texts)).length :=
    length_splitCells_append [] s (tableRow texts)
  have hpipe (pre : Str) : escaped (pre ++ [.scalar '|']) = escaped [.scalar '|'] :=
    (escaped_append_of_ne pre (by decide)).trans (by decide)
  have hrow : (cells (tableRow texts)).length =
      (splitCells (s ++ [.scalar '|']) (texts.flatMap (· ++ [.scalar '|']))).length + 1 := by
    rw [splitCells_congr (hpipe s), cells, tableRow, splitCells, if_pos ⟨rfl, rfl⟩]
    rfl
  have hnext : (splitCells s (tableRow texts)).length + (if escaped s then 1 else 0) =
      (cells (tableRow texts)).length := by
    rw [hrow, tableRow, splitCells]
    cases escaped s <;> simp
  cases hs : escaped s with
  | true =>
    rw [hs, if_pos rfl] at hnext
    rw [if_pos rfl]
    omega
  | false =>
    rw [hs, if_neg (by decide)] at hnext
    rw [if_neg (by decide)]
    omega

/-! ## What may stand in a cell -/

theorem CellText.append {s t : Str} (hs : CellText s) (ht : CellText t) : CellText (s ++ t) := by
  constructor
  · intro p q hsplit
    rcases List.append_eq_append_iff.mp hsplit with ⟨r, rfl, hr⟩ | ⟨r, hp, hr⟩
    · rw [escaped_append_of_live hs.close]
      exact ht.pipes r q hr
    · cases r with
      | nil =>
        rw [List.append_nil] at hp
        have := ht.pipes [] q hr.symm
        cases this
      | cons c r =>
        obtain ⟨rfl, -⟩ := List.cons.inj hr
        exact hs.pipes p r hp
  · rw [escaped_append_of_live hs.close, ht.close]

/-- Text without pipes and backslashes. -/
theorem CellText.of_plain {t : Str} (h : ∀ c ∈ t, c ≠ .scalar '|' ∧ c ≠ .scalar '\\') :
    CellText t := by
  constructor
  · rintro p q rfl
    exact absurd rfl (h (.scalar '|') (by simp)).1
  · rcases List.eq_nil_or_concat t with rfl | ⟨s, c, rfl⟩
    · rfl
    · rw [List.concat_eq_append, escaped_append_of_ne _ (h c (by simp)).2]

/-! ## Escaping a text for a cell -/

def escapeCellChar (c : CodePoint) : Str :=
  if c = .scalar '\\' then lit "\\\\" else if c = .scalar '|' then lit "\\|" else [c]

/-- Escape backslashes and pipes. -/
def escapeCell (s : Str) : Str := s.flatMap escapeCellChar

theorem cellText_escapeCellChar (c : CodePoint) : CellText (escapeCellChar c) := by
  rw [escapeCellChar]
  split
  · refine ⟨fun p q hsplit => ?_, by decide⟩
    have hmem : .scalar '|' ∈ lit "\\\\" := by rw [hsplit]; simp
    exact absurd hmem (by decide)
  · split
    · refine ⟨fun p q hsplit => ?_, by decide⟩
      -- the pipe is the second character, so a backslash is all there is before it
      cases p with
      | nil => cases hsplit
      | cons d p =>
        cases p with
        | nil =>
          cases hsplit
          decide
        | cons e p =>
          have hlength := congrArg List.length hsplit
          simp [lit] at hlength
    · next hslash hpipe =>
      exact CellText.of_plain (by simp [hslash, hpipe])

/-- An escaped text stays in its cell. -/
theorem cellText_escapeCell (s : Str) : CellText (escapeCell s) := by
  induction s with
  | nil => exact CellText.nil
  | cons c s ih => exact (cellText_escapeCellChar c).append ih

theorem wordWise_escapeCellChar : Str.WordWise escapeCellChar where
  space c hc := by
    rw [escapeCellChar, if_neg, if_neg]
    · rintro rfl; cases hc
    · rintro rfl; cases hc
  nonempty c := by
    rw [escapeCellChar]
    split
    · simp [lit]
    · split <;> simp [lit]
  noSpace c hc d hd := by
    rw [escapeCellChar] at hd
    split at hd
    · exact (by decide : ∀ d ∈ lit "\\\\", d.isSpace = false) d hd
    · split at hd
      · exact (by decide : ∀ d ∈ lit "\\|", d.isSpace = false) d hd
      · rwa [List.mem_singleton.mp hd]

/-! ## Undoing the escapes -/

/-- The text that a cell shows: a backslash in front of ASCII punctuation goes.
    `esc` says that such a backslash may have been the last character. -/
def unescape (esc : Bool) : Str → Str
  | [] => if esc then [.scalar '\\'] else []
  | c :: s =>
    if esc then
      if isAsciiPunctuation c then c :: unescape false s
      else .scalar '\\' :: c :: unescape false s
    else if c = .scalar '\\' then unescape true s
    else c :: unescape false s

theorem unescape_escapeCellChar (c : CodePoint) (t : Str) :
    unescape false (escapeCellChar c ++ t) = c :: unescape false t := by
  have hslash : isAsciiPunctuation (.scalar '\\') := by decide
  have hpipe : isAsciiPunctuation (.scalar '|') := by decide
  by_cases hc : c = .scalar '\\'
  · simp [escapeCellChar, hc, lit, unescape, hslash]
  · by_cases hc' : c = .scalar '|'
    · simp [escapeCellChar, hc', lit, unescape, hpipe]
    · simp [escapeCellChar, hc, hc', unescape]

/-- Escaping is undone exactly. -/
theorem unescape_escapeCell (s t : Str) :
    unescape false (escapeCell s ++ t) = s ++ unescape false t := by
  induction s with
  | nil => rfl
  | cons c s ih =>
    have happ : escapeCell (c :: s) ++ t = escapeCellChar c ++ (escapeCell s ++ t) := by
      simp [escapeCell]
    rw [happ, unescape_escapeCellChar, ih, List.cons_append]

end CommonMark
