-- SUMMARY: Reading the cost table out of a report, whatever texts the report holds above it.
import ResearchSynthesis.Report.CostTable
import ResearchSynthesis.Report.Document
import ResearchSynthesis.Python.Reading

/-!
# Reading the report

The sections of a report are texts of a model and of the web, and may well hold
a cost table of their own. The reporter's is the last one, and `readRunCost`
reads every entry of the cost log out of it, and their total.
-/

namespace ResearchSynthesis
open Python CommonMark

/-! ## Reading one row -/

/-- What the table says about a call: all but how long it took. -/
structure Figures where
  node : Str
  model : Str
  inputTokens : Int
  outputTokens : Int
  costUsd : ℚ

def CostEntry.figures (e : CostEntry) : Figures :=
  ⟨e.node, e.model, e.inputTokens, e.outputTokens, e.costUsd⟩

/-- The figures of a row of the cost table. -/
def readFigures (line : Str) : Option Figures :=
  match cells line with
  | [[], node, model, input, output, cost, []] => do
    let input ← Str.between? (lit " ") (lit " ") input
    let output ← Str.between? (lit " ") (lit " ") output
    let cost ← Str.between? (lit " $") (lit " ") cost
    return {
      node := ← Str.between? (lit " ") (lit " ") node
      model := ← Str.between? (lit " ") (lit " ") model
      inputTokens := ← readInt input
      outputTokens := ← readInt output
      costUsd := ← readFixed cost }
  | _ => none

theorem intStr_negSucc (n : Nat) : intStr (Int.negSucc n) = .scalar '-' :: natStr (n + 1) := by
  simp [intStr, lit, natStr, toString, Int.repr, Nat.repr]

theorem readInt_intStr (i : Int) : readInt (intStr i) = some i := by
  cases i with
  | ofNat n =>
    rw [Int.ofNat_eq_natCast, intStr_natCast]
    exact readInt_natStr n
  | negSucc n =>
    rw [intStr_negSucc]
    exact readInt_neg_natStr (n + 1)

/-- A row gives the entry's figures back, the cost to the last digit. -/
theorem readFigures_formatCostRow {e : CostEntry} (hnode : CellText e.node)
    (hmodel : CellText e.model) {n : ℤ} (hcost : e.costUsd = n / 10 ^ 6) :
    readFigures (formatCostRow e) = some e.figures := by
  unfold readFigures
  rw [cells_formatCostRow hnode hmodel]
  simp only [CostEntry.texts, List.cons_append, List.nil_append, Str.between?_append,
    Option.bind_eq_bind, Option.bind_some, readInt_intStr,
    readFixed_formatFixed (show 0 < 6 by decide), rounded_eq_self (show 0 < 6 by decide) hcost]
  rfl

/-! ## Reading the table -/

def readTotal (line : Str) : Option ℚ :=
  (Str.between? (lit "**Total: $") (lit "**") line).bind readFixed

theorem readTotal_formatTotal {total : ℚ} {n : ℤ} (h : total = n / 10 ^ 6) :
    readTotal (formatTotal total) = some total := by
  unfold readTotal formatTotal
  rw [Str.between?_append, Option.bind_some, readFixed_formatFixed (by decide),
    rounded_eq_self (by decide) h]

/-- The calls and the total in the last cost table of a report. -/
def readRunCost (report : Str) : Option (List Figures × ℚ) := do
  let table ← afterLast? (lit "## Run Cost") report.splitlines
  -- a blank line and the two lines of the head come before the rows
  let rows := (table.drop 3).takeWhile (· ≠ [])
  return (← rows.mapM readFigures, ← readTotal (← table.getLast?))

variable [UnicodeData]

theorem Logged.plain {e : CostEntry} (h : Logged e) {s : Str} (hs : s = e.node ∨ s = e.model) :
    s.OneLine ∧ CellText s := by
  have hplain : ∀ s ∈ agentNodes ++ modelCosts.map Prod.fst,
      s.OneLine ∧ ∀ c ∈ s, c ≠ .scalar '|' ∧ c ≠ .scalar '\\' := by
    simp only [agentNodes, modelCosts, List.map_cons, List.map_nil]
    decide +kernel
  have hmem : s ∈ agentNodes ++ modelCosts.map Prod.fst := by
    rcases hs with rfl | rfl
    · exact List.mem_append_left _ h.node
    · exact List.mem_append_right _ h.model_mem
  exact ⟨(hplain s hmem).1, CellText.of_plain (hplain s hmem).2⟩

section
variable {costLog : List CostEntry}

theorem mapM_readFigures (h : ∀ e ∈ costLog, Logged e) :
    (costLog.map formatCostRow).mapM readFigures = some (costLog.map CostEntry.figures) := by
  induction costLog with
  | nil => rfl
  | cons e costLog ih =>
    have he := h e (by simp)
    obtain ⟨n, hn⟩ := he.millionths
    rw [List.map_cons, List.mapM_cons,
      readFigures_formatCostRow (he.plain (.inl rfl)).2 (he.plain (.inr rfl)).2 hn,
      ih fun x hx => h x (List.mem_cons_of_mem _ hx)]
    rfl

/-- The lines below the table's heading. -/
def costTableBody (costLog : List CostEntry) : List Str :=
  costTableHead.tail ++ costLog.map formatCostRow ++ [[], formatTotal (totalCost costLog)]

omit [UnicodeData] in
/-- The heading does not come again. -/
theorem heading_notMem_costTableBody : lit "## Run Cost" ∉ costTableBody costLog := by
  unfold costTableBody
  rw [List.mem_append, List.mem_append]
  rintro ((hmem | hmem) | hmem)
  · exact absurd hmem (by decide +kernel)
  · obtain ⟨e, -, he⟩ := List.mem_map.mp hmem
    simp [formatCostRow, lit] at he
  · simp [formatTotal, lit] at hmem

omit [UnicodeData] in
theorem formatCostRow_ne_nil (e : CostEntry) : formatCostRow e ≠ [] := by
  simp [formatCostRow, lit]

theorem readRunCost_of_splitlines (h : ∀ e ∈ costLog, Logged e) {report : Str} (before : List Str)
    (hlines : report.splitlines = before ++ lit "## Run Cost" :: costTableBody costLog) :
    readRunCost report = some (costLog.map CostEntry.figures, totalCost costLog) := by
  have hrows : ((costTableBody costLog).drop 3).takeWhile (· ≠ []) = costLog.map formatCostRow := by
    have hnonempty : ∀ l ∈ costLog.map formatCostRow, decide (l ≠ []) := by
      intro l hl
      obtain ⟨e, -, rfl⟩ := List.mem_map.mp hl
      simpa using formatCostRow_ne_nil e
    change (costLog.map formatCostRow ++ _).takeWhile _ = _
    rw [List.takeWhile_append_of_pos hnonempty]
    simp
  have hlast : (costTableBody costLog).getLast? = some (formatTotal (totalCost costLog)) := by
    simp [costTableBody, List.getLast?_append]
  obtain ⟨n, hn⟩ := totalCost_millionths fun e he => (h e he).millionths
  unfold readRunCost
  rw [hlines, afterLast?_append before heading_notMem_costTableBody]
  simp only [Option.bind_eq_bind, Option.bind_some, hrows, mapM_readFigures h, hlast,
    readTotal_formatTotal hn]
  rfl

end

/-! ## Reading a document -/

/-- Above the cost table there is something, and then a blank line. -/
theorem Document.exists_render_eq {d : Document} (h : d.costs ≠ []) :
    ∃ body, d.render = body ++ lit "\n\n" ++ formatCostTable d.costs := by
  obtain ⟨bs, hne, hbs⟩ : ∃ bs, bs ≠ [] ∧ d.blocks = bs ++ [.text (formatCostTable d.costs)] := by
    rw [Document.blocks, Document.parts, if_pos h, List.flatten_append]
    exact ⟨_, by simp, rfl⟩
  refine ⟨Str.join (lit "\n\n") (bs.map Block.render), ?_⟩
  rw [Document.render, hbs, List.map_append, Str.join_append (by simpa using hne) (by simp),
    List.map_singleton, Str.join_singleton]
  rfl

/-- Every call of a document's costs is read out of its text, and their total. -/
theorem Document.readRunCost_render {d : Document} (hne : d.costs ≠ [])
    (h : ∀ e ∈ d.costs, Logged e) :
    readRunCost d.render = some (d.costs.map CostEntry.figures, totalCost d.costs) := by
  obtain ⟨body, hbody⟩ := Document.exists_render_eq hne
  refine readRunCost_of_splitlines h ((body ++ lit "\n").splitlines ++ [[]]) ?_
  rw [hbody, Str.splitlines_append_blank, splitlines_formatCostTable fun e he =>
    oneLine_formatCostRow ((h e he).plain (.inl rfl)).1 ((h e he).plain (.inr rfl)).1]
  simp [costTableBody, costTableHead]

/-- The first line of a report is its title. -/
theorem Document.head?_splitlines_render (d : Document) :
    d.render.splitlines.head? = some (lit "# Research Report: " ++ oneline d.question) := by
  have htitle : Str.OneLine (lit "# Research Report: " ++ oneline d.question) :=
    Str.OneLine.append (by decide) (Str.oneLine_join_split _)
  obtain ⟨bs, hbs⟩ : ∃ bs, d.blocks = .text (lit "# Research Report: " ++ oneline d.question) :: bs :=
    ⟨_, rfl⟩
  unfold Document.render
  rw [hbs, List.map_cons]
  cases bs with
  | nil =>
    rw [List.map_nil, Str.join_singleton]
    exact congrArg List.head? (Str.splitlines_oneLine htitle (by simp [lit]))
  | cons b bs =>
    rw [List.map_cons, Str.join_cons_cons, Str.splitlines_append_blank]
    exact congrArg List.head? (congrArg (· ++ _) (Str.splitlines_oneLine_newline htitle))

end ResearchSynthesis
