-- SUMMARY: `str.splitlines`, and how it sees a text that is put together line by line.
import ResearchSynthesis.Python.Text

/-! # Lines of a string -/

namespace Python

namespace CodePoint

/-- The characters `str.splitlines()` ends a line at. -/
def lineBreaks : List CodePoint :=
  ['\n', '\x0b', '\x0c', '\r', '\x1c', '\x1d', '\x1e', '\u0085', '\u2028', '\u2029']

def isLineBreak (c : CodePoint) : Bool := c ∈ lineBreaks

/-- Every line boundary is whitespace: collapsing whitespace joins lines. -/
theorem isSpace_of_isLineBreak {c : CodePoint} (h : c.isLineBreak) : c.isSpace := by
  have hsub : ∀ d ∈ lineBreaks, d ∈ whitespace := by decide
  simpa [isSpace] using hsub c (by simpa [isLineBreak] using h)

end CodePoint

namespace Str

/-- Put a character in front of the first line. -/
def consLine (c : CodePoint) : List Str → List Str
  | [] => [[c]]
  | l :: ls => (c :: l) :: ls

/-- `s.splitlines()`. A carriage return in front of a line feed belongs to the
    line feed's line boundary; a boundary at the very end opens no further line. -/
def splitlines : Str → List Str
  | [] => []
  | c :: cs =>
    if c = '\r' ∧ cs.head? = some (.scalar '\n') then splitlines cs
    else if c.isLineBreak then [] :: splitlines cs
    else consLine c (splitlines cs)

/-- No character of the string ends a line. -/
def OneLine (s : Str) : Prop := ∀ c ∈ s, c.isLineBreak = false

instance (s : Str) : Decidable s.OneLine := inferInstanceAs (Decidable (∀ _ ∈ s, _))

theorem OneLine.append {s t : Str} (hs : s.OneLine) (ht : t.OneLine) : OneLine (s ++ t) := by
  intro c hc
  rcases List.mem_append.mp hc with hc | hc
  · exact hs c hc
  · exact ht c hc

theorem consLine_ne_nil {c : CodePoint} {ls : List Str} : consLine c ls ≠ [] := by
  cases ls <;> simp [consLine]

theorem splitlines_ne_nil {s : Str} (hs : s ≠ []) : s.splitlines ≠ [] := by
  induction s with
  | nil => exact absurd rfl hs
  | cons c cs ih =>
    simp only [splitlines]
    split
    · next h => exact ih (by rintro rfl; simp at h)
    · split
      · simp
      · exact consLine_ne_nil

theorem consLine_append {c : CodePoint} {ls ms : List Str} (h : ls ≠ []) :
    consLine c (ls ++ ms) = consLine c ls ++ ms := by
  cases ls with
  | nil => exact absurd rfl h
  | cons l ls => rfl

theorem splitlines_cons (c : CodePoint) (cs : Str) :
    splitlines (c :: cs) =
      if c = '\r' ∧ cs.head? = some (.scalar '\n') then splitlines cs
      else if c.isLineBreak then [] :: splitlines cs
      else consLine c (splitlines cs) := rfl

theorem splitlines_newline_cons (s : Str) :
    splitlines (.scalar '\n' :: s) = [] :: splitlines s := by
  rw [splitlines, if_neg (by simp), if_pos (by decide)]

theorem splitlines_cons_of_not_lineBreak {c : CodePoint} {s : Str} (hc : c.isLineBreak = false) :
    splitlines (c :: s) = consLine c (splitlines s) := by
  have hcr : c ≠ '\r' := by rintro rfl; revert hc; decide
  rw [splitlines, if_neg (by simp [hcr]), if_neg (by simp [hc])]

/-- A line feed separates what comes before it from what comes after. -/
theorem splitlines_append_newline (s t : Str) :
    splitlines (s ++ lit "\n" ++ t) = splitlines (s ++ lit "\n") ++ splitlines t := by
  rw [show lit "\n" = [.scalar '\n'] from rfl, List.append_assoc]
  induction s with
  | nil => simp [splitlines_newline_cons, splitlines]
  | cons c s ih =>
    have hhead : (s ++ ([CodePoint.scalar '\n'] ++ t)).head? =
        (s ++ [CodePoint.scalar '\n']).head? := by cases s <;> rfl
    have hne : splitlines (s ++ [CodePoint.scalar '\n']) ≠ [] := splitlines_ne_nil (by simp)
    change splitlines (c :: (s ++ _)) = splitlines (c :: (s ++ _)) ++ _
    rw [splitlines_cons, splitlines_cons, hhead, ih]
    split
    · rfl
    · split
      · rfl
      · exact consLine_append hne

theorem splitlines_oneLine_newline {s : Str} (h : s.OneLine) :
    splitlines (s ++ lit "\n") = [s] := by
  rw [show lit "\n" = [.scalar '\n'] from rfl]
  induction s with
  | nil => simp [splitlines_newline_cons, splitlines]
  | cons c s ih =>
    have hs : OneLine s := fun d hd => h d (List.mem_cons_of_mem _ hd)
    rw [List.cons_append, splitlines_cons_of_not_lineBreak (h c (by simp)), ih hs, consLine]

theorem splitlines_oneLine {s : Str} (h : s.OneLine) (hs : s ≠ []) : splitlines s = [s] := by
  induction s with
  | nil => exact absurd rfl hs
  | cons c s ih =>
    have hs : OneLine s := fun d hd => h d (List.mem_cons_of_mem _ hd)
    rw [splitlines_cons_of_not_lineBreak (h c (by simp))]
    cases s with
    | nil => rfl
    | cons d s => rw [ih hs (by simp), consLine]

/-- A blank line separates paragraphs. -/
theorem splitlines_append_blank (s t : Str) :
    splitlines (s ++ lit "\n\n" ++ t) = splitlines (s ++ lit "\n") ++ [] :: splitlines t := by
  have hsplit : s ++ lit "\n\n" ++ t = s ++ lit "\n" ++ (.scalar '\n' :: t) := by simp [lit]
  rw [hsplit, splitlines_append_newline, splitlines_newline_cons]

/-! ## Lines put together -/

theorem splitlines_join_newline {ls : List Str} (h : ∀ l ∈ ls, l.OneLine) (hls : ls ≠ []) :
    splitlines (join (lit "\n") ls ++ lit "\n") = ls := by
  induction ls with
  | nil => exact absurd rfl hls
  | cons l ls ih =>
    cases ls with
    | nil => rw [join_singleton, splitlines_oneLine_newline (h l (by simp))]
    | cons m ms =>
      rw [join_cons_cons, List.append_assoc, splitlines_append_newline,
        splitlines_oneLine_newline (h l (by simp)),
        ih (fun x hx => h x (List.mem_cons_of_mem _ hx)) (by simp)]
      rfl

theorem splitlines_join {ls : List Str} (h : ∀ l ∈ ls, l.OneLine) (hne : ∀ l ∈ ls, l ≠ []) :
    splitlines (join (lit "\n") ls) = ls := by
  induction ls with
  | nil => rfl
  | cons l ls ih =>
    cases ls with
    | nil => rw [join_singleton, splitlines_oneLine (h l (by simp)) (hne l (by simp))]
    | cons m ms =>
      rw [join_cons_cons, splitlines_append_newline, splitlines_oneLine_newline (h l (by simp)),
        ih (fun x hx => h x (List.mem_cons_of_mem _ hx))
          fun x hx => hne x (List.mem_cons_of_mem _ hx)]
      rfl

/-- Only the last line must not be empty. -/
theorem splitlines_join_concat {ls : List Str} {x : Str} (h : ∀ l ∈ ls, l.OneLine) (hls : ls ≠ [])
    (hx : x.OneLine) (hne : x ≠ []) : splitlines (join (lit "\n") (ls ++ [x])) = ls ++ [x] := by
  rw [join_append hls (by simp), join_singleton, splitlines_append_newline,
    splitlines_join_newline h hls, splitlines_oneLine hx hne]

/-! ## Text that stays on one line -/

theorem OneLine.replace {s new : Str} {c : CodePoint} (hs : s.OneLine) (hnew : new.OneLine) :
    OneLine (s.replace c new) := by
  intro d hd
  obtain ⟨e, he, hd⟩ := List.mem_flatMap.mp hd
  split at hd
  · exact hnew d hd
  · rw [List.mem_singleton.mp hd]
    exact hs e he

theorem isLineBreak_eq_false_of_isSpace {c : CodePoint} (h : c.isSpace = false) :
    c.isLineBreak = false := by
  by_contra hbreak
  rw [CodePoint.isSpace_of_isLineBreak (by simpa using hbreak)] at h
  cases h

/-- Words joined by blanks stay on one line. -/
theorem oneLine_join_split (s : Str) : OneLine (join (lit " ") s.split) := by
  intro c hc
  rcases mem_join hc with hsep | ⟨w, hw, hc⟩
  · exact (show OneLine (lit " ") by decide) c hsep
  · exact isLineBreak_eq_false_of_isSpace (isSpace_eq_false_of_mem_split hw hc)

/-- A string without its whitespace is on one line. -/
theorem oneLine_join_nil_split (s : Str) : OneLine (join [] s.split) := by
  intro c hc
  rw [join_nil_split, List.mem_filter] at hc
  exact isLineBreak_eq_false_of_isSpace (by simpa using hc.2)

end Str

end Python
