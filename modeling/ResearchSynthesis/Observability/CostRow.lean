-- SUMMARY: The row of a run in the cost document: one line of text, which can be encoded when the question can.
import ResearchSynthesis.Observability
import ResearchSynthesis.Python.Lines
import ResearchSynthesis.Python.DateTime

/-! # Rows of the cost document -/

namespace ResearchSynthesis
open Python

/-! ## Encoding a row -/

theorem encodable_cell (text : Str) : (cell text).Encodable ↔ text.Encodable := by
  rw [cell, Str.encodable_join_split (Str.encodable_lit _),
    Str.encodable_replace rfl (Str.encodable_lit _), Str.encodable_replace rfl (Str.encodable_lit _)]

theorem CostRow.encodable_text (row : CostRow) :
    row.text.Encodable ↔ row.date.Encodable ∧ row.question.Encodable := by
  simp [CostRow.text, encodable_cell, encodable_natStr, encodable_formatFixed]

theorem CostRow.text_ne_nil (row : CostRow) : row.text ≠ [] := by
  simp [CostRow.text, lit]

/-! ## A row is one line -/

theorem oneLine_cell (text : Str) : (cell text).OneLine := Str.oneLine_join_split _

/-- The row without its line feed. -/
def CostRow.line (row : CostRow) : Str :=
  lit "| " ++ row.date ++ lit " " ++
    (lit "| " ++ cell row.question ++ lit " ") ++
    (lit "| " ++ natStr row.subQuestionCount ++ lit " sub-questions ") ++
    (lit "| $" ++ formatFixed 4 row.totalCostUsd ++ lit " ") ++
    (lit "| " ++ formatFixed 1 row.latencyS ++ lit "s ") ++
    (lit "| " ++ natStr row.nodeCount ++ lit " nodes |")

theorem CostRow.text_eq_line (row : CostRow) : row.text = row.line ++ lit "\n" := by
  have hend : lit " nodes |\n" = lit " nodes |" ++ lit "\n" := by decide
  simp only [CostRow.text, CostRow.line, hend, List.append_assoc]

theorem CostRow.oneLine_line {row : CostRow} (hdate : row.date.OneLine) : row.line.OneLine := by
  have hlit (s : String) (h : (lit s).OneLine) : (lit s).OneLine := h
  have hnat := oneLine_natStr
  have hfixed := oneLine_formatFixed
  exact ((((((hlit _ (by decide)).append hdate).append (hlit _ (by decide))).append
    (((hlit _ (by decide)).append (oneLine_cell _)).append (hlit _ (by decide)))).append
    (((hlit _ (by decide)).append (hnat _)).append (hlit _ (by decide)))).append
    (((hlit _ (by decide)).append (hfixed _ _)).append (hlit _ (by decide)))).append
    (((hlit _ (by decide)).append (hfixed _ _)).append (hlit _ (by decide))) |>.append
    (((hlit _ (by decide)).append (hnat _)).append (hlit _ (by decide)))

/-- A row adds exactly one line to whatever the document holds. -/
theorem CostRow.splitlines_text {row : CostRow} (hdate : row.date.OneLine) :
    row.text.splitlines = [row.line] := by
  rw [row.text_eq_line, Str.splitlines_oneLine_newline (row.oneLine_line hdate)]

end ResearchSynthesis
