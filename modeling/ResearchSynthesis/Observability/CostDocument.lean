-- SUMMARY: The cost document over a history of runs: a table that grows by one well-formed row each time.
import ResearchSynthesis.Observability.CostRow
import ResearchSynthesis.CommonMark.Table

/-!
# The cost document

`cell` escapes first and collapses whitespace afterwards. The escaping works
word by word, so it might as well come last, and then a cell holds exactly the
escaped text of the collapsed question.
-/

namespace ResearchSynthesis
open Python CommonMark

/-! ## The cell of a question -/

theorem escapeCell_eq_replace (text : Str) :
    (text.replace '\\' (lit "\\\\")).replace '|' (lit "\\|") = escapeCell text := by
  rw [Str.replace, Str.replace, List.flatMap_assoc, escapeCell]
  congr 1
  funext c
  by_cases hslash : c = .scalar '\\'
  · rw [hslash]
    rfl
  · simp [hslash, escapeCellChar]

theorem cell_eq_escapeCell (text : Str) :
    cell text = escapeCell (Str.join (lit " ") text.split) := by
  rw [cell, escapeCell_eq_replace, escapeCell, wordWise_escapeCellChar.join_split, escapeCell]

/-- What a padded cell shows is the collapsed text. -/
theorem strip_unescape_cell (text : Str) :
    (unescape false (lit " " ++ cell text ++ lit " ")).strip = Str.join (lit " ") text.split := by
  have hblank (t : Str) : unescape false (lit " " ++ t) = lit " " ++ unescape false t := by
    simp [lit, unescape]
  have htail : unescape false (lit " ") = lit " " := by decide
  rw [List.append_assoc, hblank, cell_eq_escapeCell, unescape_escapeCell, htail,
    ← List.append_assoc]
  exact Str.stripBy_padded (by decide) (by decide) (fun c => Str.head?_join_split)
    fun c => Str.getLast?_join_split

/-! ## The cells of a row -/

/-- The six cells of a row. -/
def CostRow.texts (row : CostRow) : List Str :=
  [lit " " ++ row.date ++ lit " ",
   lit " " ++ cell row.question ++ lit " ",
   lit " " ++ natStr row.subQuestionCount ++ lit " sub-questions ",
   lit " $" ++ formatFixed 4 row.totalCostUsd ++ lit " ",
   lit " " ++ formatFixed 1 row.latencyS ++ lit "s ",
   lit " " ++ natStr row.nodeCount ++ lit " nodes "]

theorem CostRow.line_eq_tableRow (row : CostRow) : row.line = tableRow row.texts := by
  simp [CostRow.line, CostRow.texts, tableRow, lit]

theorem plain_of_isDigit {d : Char} (h : d.isDigit) :
    CodePoint.scalar d ≠ .scalar '|' ∧ CodePoint.scalar d ≠ .scalar '\\' :=
  ⟨fun hd => isDigit_ne h rfl (CodePoint.scalar.inj hd),
    fun hd => isDigit_ne h rfl (CodePoint.scalar.inj hd)⟩

theorem cellText_natStr (n : Nat) : CellText (natStr n) := by
  refine CellText.of_plain fun c hc => ?_
  obtain ⟨d, hd, rfl⟩ := List.mem_map.mp hc
  exact plain_of_isDigit (isDigit_of_mem_toDigits hd)

theorem cellText_formatFixed (places : Nat) (q : ℚ) : CellText (formatFixed places q) := by
  refine CellText.of_plain fun c hc => ?_
  rcases mem_formatFixed hc with hc | ⟨d, hd, rfl⟩
  · exact (by decide : ∀ c ∈ lit "-.", c ≠ .scalar '|' ∧ c ≠ .scalar '\\') c hc
  · exact plain_of_isDigit hd

theorem cellText_zeroPadded (width n : Nat) : CellText (zeroPadded width n) := by
  refine CellText.of_plain fun c hc => ?_
  obtain ⟨d, hd, rfl⟩ := isDigit_of_mem_zeroPadded hc
  exact plain_of_isDigit hd

theorem cellText_date (t : DateTime) : CellText t.date := by
  have hdash : CellText (lit "-") := CellText.of_plain (by decide)
  exact ((((cellText_zeroPadded _ _).append hdash).append (cellText_zeroPadded _ _)).append
    hdash).append (cellText_zeroPadded _ _)

theorem cellText_cell (text : Str) : CellText (cell text) := by
  rw [cell_eq_escapeCell]
  exact cellText_escapeCell _

/-- The row splits into its six cells. -/
theorem CostRow.cells_line {row : CostRow} (hdate : CellText row.date) :
    cells row.line = [] :: row.texts ++ [[]] := by
  have hpadded {before text after : Str} (htext : CellText text)
      (hbefore : CellText before) (hafter : CellText after) :
      CellText (before ++ text ++ after) := (hbefore.append htext).append hafter
  rw [row.line_eq_tableRow]
  refine cells_tableRow ?_
  simp only [CostRow.texts, List.forall_mem_cons, List.not_mem_nil, false_implies, implies_true,
    and_true]
  refine ⟨hpadded hdate ?_ ?_, hpadded (cellText_cell _) ?_ ?_, hpadded (cellText_natStr _) ?_ ?_,
    hpadded (cellText_formatFixed _ _) ?_ ?_, hpadded (cellText_formatFixed _ _) ?_ ?_,
    hpadded (cellText_natStr _) ?_ ?_⟩
  all_goals exact CellText.of_plain (by decide)

/-! ## A history of rows -/

/-- Calls of `write_cost_row` that return, one after the other. -/
inductive RowsWritten (path : Path) : Disk Exn → List CostRow → Disk Exn → Prop where
  | nil (disk : Disk Exn) : RowsWritten path disk [] disk
  | cons {d d' d'' : Disk Exn} {row : CostRow} {rows : List CostRow} {answer : FileAnswer Exn}
      (hwrite : writeCostRow row path answer d = (.ok (), d'))
      (hrest : RowsWritten path d' rows d'') : RowsWritten path d (row :: rows) d''

/-- The text ends in a newline. -/
def EndsInNewline (doc : Str) : Prop := ∃ s, doc = s ++ lit "\n"

/-- A call that returns has appended its row. -/
theorem disk_of_writeCostRow {row : CostRow} {path : Path} {answer : FileAnswer Exn}
    {d d' : Disk Exn} (h : writeCostRow row path answer d = (.ok (), d')) :
    ∃ b, row.text.encode = some b ∧ d' = d.store path (d.content path ++ b) := by
  rcases d.writeAfter_cases path (d.content path) row.text unicodeEncodeError answer with
    ⟨b, hb, -, hw⟩ | ⟨e, -, hw⟩ | ⟨e, kept, -, hw⟩
  · exact ⟨b, hb, (congrArg Prod.snd (h.symm.trans hw))⟩
  · cases h.symm.trans hw
  · cases h.symm.trans hw

/-- Where the question can be encoded and the file can be written, a call returns. -/
theorem writeCostRow_returns {row : CostRow} (path : Path) (d : Disk Exn)
    (h : row.text.Encodable) : ∃ d', writeCostRow row path .accepts d = (.ok (), d') := by
  obtain ⟨b, hb⟩ := Str.exists_encode_iff.mpr h
  exact ⟨d.store path (d.content path ++ b), by
    simp [writeCostRow, Disk.appendText, Disk.writeAfter, hb]⟩

section
variable {path : Path} {disk after : Disk Exn} {rows : List CostRow} {doc : Str}

theorem exists_rowsWritten (hrows : ∀ row ∈ rows, row.text.Encodable) (disk : Disk Exn) :
    ∃ after, RowsWritten path disk rows after := by
  induction rows generalizing disk with
  | nil => exact ⟨disk, .nil disk⟩
  | cons row rows ih =>
    obtain ⟨d', hwrite⟩ := writeCostRow_returns path disk (hrows row (by simp))
    obtain ⟨after, hrest⟩ := ih (fun r hr => hrows r (List.mem_cons_of_mem _ hr)) d'
    exact ⟨after, .cons hwrite hrest⟩

/-- The document is the old text followed by the rows. -/
theorem RowsWritten.encode_eq (h : RowsWritten path disk rows after)
    (hdoc : doc.encode = some (disk.content path)) :
    (doc ++ rows.flatMap CostRow.text).encode = some (after.content path) := by
  induction h generalizing doc with
  | nil _ => simpa using hdoc
  | @cons d _ _ row rows _ hwrite _ ih =>
    obtain ⟨b, hb, rfl⟩ := disk_of_writeCostRow hwrite
    have hnext : (d.store path (d.content path ++ b)).content path = d.content path ++ b := by
      simp [Disk.content]
    have hrow : (doc ++ row.text).encode =
        some ((d.store path (d.content path ++ b)).content path) := by
      rw [hnext, Str.encode_append hdoc hb]
    simpa using ih hrow

theorem RowsWritten.content_prefix (h : RowsWritten path disk rows after) :
    disk.content path <+: after.content path := by
  induction h with
  | nil _ => exact List.prefix_rfl
  | cons hwrite _ ih =>
    obtain ⟨b, -, rfl⟩ := disk_of_writeCostRow hwrite
    simp only [Disk.content, Disk.store_files_self, Option.getD_some] at ih ⊢
    exact (List.prefix_append _ _).trans ih

/-- Each row is one more line. -/
theorem splitlines_append_rows (hend : EndsInNewline doc) (hrows : ∀ row ∈ rows, row.date.OneLine) :
    (doc ++ rows.flatMap CostRow.text).splitlines = doc.splitlines ++ rows.map CostRow.line ∧
      EndsInNewline (doc ++ rows.flatMap CostRow.text) := by
  induction rows generalizing doc with
  | nil => simpa using hend
  | cons row rows ih =>
    obtain ⟨s, rfl⟩ := hend
    have hnext : EndsInNewline (s ++ lit "\n" ++ row.text) :=
      ⟨s ++ lit "\n" ++ row.line, by rw [row.text_eq_line, ← List.append_assoc]⟩
    obtain ⟨hlines, hlast⟩ := ih hnext fun r hr => hrows r (List.mem_cons_of_mem _ hr)
    have hrow : (s ++ lit "\n" ++ row.text).splitlines = (s ++ lit "\n").splitlines ++ [row.line] := by
      rw [Str.splitlines_append_newline, CostRow.splitlines_text (hrows row (by simp))]
    rw [List.flatMap_cons, ← List.append_assoc]
    exact ⟨by rw [hlines, hrow]; simp, hlast⟩

end

/-- Over any sequence of rows, the cost document keeps its old content as a
    prefix and grows by one line a row; the line splits into six cells, of which
    the second shows the collapsed question. -/
theorem costDocument_wellFormed {path : Path} {disk : Disk Exn} {rows : List CostRow} {doc : Str}
    (hdoc : doc.encode = some (disk.content path)) (hend : EndsInNewline doc)
    (hquestions : ∀ row ∈ rows, row.question.Encodable)
    (hdates : ∀ row ∈ rows, ∃ t : DateTime, row.date = t.date) :
    (∃ after, RowsWritten path disk rows after) ∧
    ∀ after, RowsWritten path disk rows after →
      disk.content path <+: after.content path ∧
      ∃ doc', Str.decode (after.content path) = some doc' ∧
        doc'.splitlines = doc.splitlines ++ rows.map CostRow.line ∧ EndsInNewline doc' ∧
        ∀ row ∈ rows, ∃ texts, cells row.line = [] :: texts ++ [[]] ∧ texts.length = 6 ∧
          ∃ text, texts[1]? = some text ∧
            (unescape false text).strip = Str.join (lit " ") row.question.split := by
  have hencodable : ∀ row ∈ rows, row.text.Encodable := by
    intro row hrow
    obtain ⟨t, ht⟩ := hdates row hrow
    exact row.encodable_text.mpr ⟨by rw [ht]; exact t.encodable_date, hquestions row hrow⟩
  have honeLine : ∀ row ∈ rows, row.date.OneLine := by
    intro row hrow
    obtain ⟨t, ht⟩ := hdates row hrow
    rw [ht]
    exact t.oneLine_date
  refine ⟨exists_rowsWritten hencodable disk, fun after hwritten => ?_⟩
  obtain ⟨hlines, hlast⟩ := splitlines_append_rows hend honeLine
  refine ⟨hwritten.content_prefix, _, Str.decode_encode (hwritten.encode_eq hdoc), hlines, hlast,
    fun row hrow => ?_⟩
  obtain ⟨t, ht⟩ := hdates row hrow
  exact ⟨row.texts, CostRow.cells_line (by rw [ht]; exact cellText_date t), rfl, _, rfl,
    strip_unescape_cell row.question⟩

/-- A question with a pipe, a trailing backslash and a line feed. -/
def pipedRow : CostRow where
  date := lit "2026-01-02"
  question := lit "a |\n b\\"
  subQuestionCount := 3
  totalCostUsd := 1
  latencyS := 2
  nodeCount := 6

theorem costDocument_wellFormed_piped :
    ∃ after, RowsWritten [] ⟨fun _ => some [0x7c, 0x0a], .ok⟩ [pipedRow] after ∧
      ∃ doc', Str.decode (after.content []) = some doc' ∧
        doc'.splitlines = [lit "|", pipedRow.line] ∧
        ∃ texts, cells pipedRow.line = [] :: texts ++ [[]] ∧ texts.length = 6 ∧
          ∃ text, texts[1]? = some text ∧ (unescape false text).strip = lit "a | b\\" := by
  have hdate : ∃ t : DateTime, pipedRow.date = t.date :=
    ⟨⟨2026, 1, 2, 3, 4, 5, 0, by decide, by decide, by decide, by decide, by decide, by decide,
      by decide⟩, by decide⟩
  obtain ⟨⟨after, hwritten⟩, hall⟩ :=
    @costDocument_wellFormed [] ⟨fun _ => some [0x7c, 0x0a], .ok⟩ [pipedRow] (lit "|\n") (by decide)
      ⟨lit "|", by decide⟩ (by decide) (by simpa using hdate)
  obtain ⟨-, doc', hdoc, hlines, -, hcells⟩ := hall after hwritten
  have hcollapsed : Str.join (lit " ") pipedRow.question.split = lit "a | b\\" := by decide
  obtain ⟨texts, hsplit, hlength, text, htext, hshown⟩ := hcells pipedRow (by simp)
  exact ⟨after, hwritten, doc', hdoc, hlines, texts, hsplit, hlength, text, htext,
    hshown.trans hcollapsed⟩

end ResearchSynthesis
