-- SUMMARY: Reading the cost document back: what a row says, and that a document says just what its rows do.
import ResearchSynthesis.Observability.CostDocument
import ResearchSynthesis.Python.Reading

/-!
# Reading the cost document

A row keeps the date and the two counts, the question up to whitespace, the cost
to four decimals and the latency to one. `CostRow.shown` is that row, and
`readCostRow` reads it out of the line that was written.
-/

namespace ResearchSynthesis
open Python CommonMark

/-! ## Reading one row -/

/-- What a row of the document says about its run. -/
def CostRow.shown (row : CostRow) : CostRow :=
  { row with
    question := Str.join (lit " ") row.question.split
    totalCostUsd := rounded 4 row.totalCostUsd
    latencyS := rounded 1 row.latencyS }

/-- The row that a line of the document holds; none for any other line, such as
    the table's header. -/
def readCostRow (line : Str) : Option CostRow :=
  match cells line with
  | [[], date, question, subQuestions, cost, latency, nodes, []] => do
    let date ← Str.between? (lit " ") (lit " ") date
    let question ← Str.between? (lit " ") (lit " ") question
    let subQuestions ← Str.between? (lit " ") (lit " sub-questions ") subQuestions
    let cost ← Str.between? (lit " $") (lit " ") cost
    let latency ← Str.between? (lit " ") (lit "s ") latency
    let nodes ← Str.between? (lit " ") (lit " nodes ") nodes
    return {
      date
      question := unescape false question
      subQuestionCount := ← readNat subQuestions
      totalCostUsd := ← readFixed cost
      latencyS := ← readFixed latency
      nodeCount := ← readNat nodes }
  | _ => none

theorem unescape_cell (text : Str) :
    unescape false (cell text) = Str.join (lit " ") text.split := by
  rw [cell_eq_escapeCell, ← List.append_nil (escapeCell _), unescape_escapeCell]
  exact List.append_nil _

/-- A row that was written is read back as what it shows. -/
theorem readCostRow_line {row : CostRow} (hdate : CellText row.date) :
    readCostRow row.line = some row.shown := by
  unfold readCostRow
  rw [CostRow.cells_line hdate]
  simp only [CostRow.texts, List.cons_append, List.nil_append, Str.between?_append,
    Option.bind_eq_bind, Option.bind_some, unescape_cell, readNat_natStr,
    readFixed_formatFixed (show 0 < 4 by decide), readFixed_formatFixed (show 0 < 1 by decide)]
  rfl

/-- A row of the committed document. -/
example :
    (readCostRow (lit <| "| 2026-07-24 | How do electric cars work? | 5 sub-questions " ++
        "| $0.0322 | 18.5s | 8 nodes |")).map
      (fun row => (row.subQuestionCount, row.totalCostUsd, row.nodeCount)) =
        some (5, 322 / 10000, 8) := by
  decide +kernel

/-- What is lost: less than the printed decimals show. -/
theorem CostRow.shown_close (row : CostRow) :
    |row.shown.totalCostUsd - row.totalCostUsd| ≤ 1 / 20000 ∧
      |row.shown.latencyS - row.latencyS| ≤ 1 / 20 := by
  have hcost := abs_rounded_sub_le 4 row.totalCostUsd
  have hlatency := abs_rounded_sub_le 1 row.latencyS
  norm_num at hcost hlatency
  exact ⟨by simpa [CostRow.shown] using hcost, by simpa [CostRow.shown] using hlatency⟩

/-! ## Reading the document -/

/-- The rows of a document, from top to bottom. -/
def readCostDocument (doc : Str) : List CostRow := doc.splitlines.filterMap readCostRow

section
variable {doc : Str} {rows : List CostRow}

theorem filterMap_readCostRow (hdates : ∀ row ∈ rows, CellText row.date) :
    (rows.map CostRow.line).filterMap readCostRow = rows.map CostRow.shown := by
  induction rows with
  | nil => rfl
  | cons row rows ih =>
    rw [List.map_cons, List.filterMap_cons_some (readCostRow_line (hdates row (by simp))),
      ih fun r hr => hdates r (List.mem_cons_of_mem _ hr), List.map_cons]

/-- Rows that are appended start a new line each, also in a new document. -/
theorem splitlines_append_rows_of_whole (hwhole : doc = [] ∨ EndsInNewline doc)
    (hrows : ∀ row ∈ rows, row.date.OneLine) :
    (doc ++ rows.flatMap CostRow.text).splitlines = doc.splitlines ++ rows.map CostRow.line := by
  rcases hwhole with rfl | hend
  · cases rows with
    | nil => rfl
    | cons row rows =>
      obtain ⟨hrow, hrest⟩ := List.forall_mem_cons.mp hrows
      rw [List.flatMap_cons, List.nil_append,
        (splitlines_append_rows ⟨row.line, row.text_eq_line⟩ hrest).1, row.splitlines_text hrow]
      rfl
  · exact (splitlines_append_rows hend hrows).1

/-- Rows appended to a document are read after the ones that were there. -/
theorem readCostDocument_append_rows (hwhole : doc = [] ∨ EndsInNewline doc)
    (hdates : ∀ row ∈ rows, ∃ t : DateTime, row.date = t.date) :
    readCostDocument (doc ++ rows.flatMap CostRow.text) =
      readCostDocument doc ++ rows.map CostRow.shown := by
  have honeLine : ∀ row ∈ rows, row.date.OneLine := by
    intro row hrow
    obtain ⟨t, ht⟩ := hdates row hrow
    exact ht ▸ t.oneLine_date
  have hcellText : ∀ row ∈ rows, CellText row.date := by
    intro row hrow
    obtain ⟨t, ht⟩ := hdates row hrow
    exact ht ▸ cellText_date t
  unfold readCostDocument
  rw [splitlines_append_rows_of_whole hwhole honeLine, List.filterMap_append,
    filterMap_readCostRow hcellText]

end

end ResearchSynthesis
