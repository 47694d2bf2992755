-- SUMMARY: `report.py`: the Markdown report as a pure function of the state.
import ResearchSynthesis.Exceptions
import ResearchSynthesis.State
import ResearchSynthesis.Python.Decimal

/-! # Reporter -/

namespace ResearchSynthesis
open Python

/-! ## Escaping -/

/-- Collapse whitespace, so that a value cannot break a heading or a table row. -/
def oneline (text : Str) : Str := Str.join (lit " ") text.split

/-- Escape brackets, so that a scraped title cannot close the link text early. -/
def escapeLinkText (text : Str) : Str :=
  ((oneline text).replace '[' (lit "\\[")).replace ']' (lit "\\]")

variable [UnicodeData]

omit [UnicodeData] in
/-- URLs never contain whitespace. -/
def compactUrl (url : Str) : Str := Str.join [] url.split

/-- `url.lower().startswith(("http://", "https://"))`. -/
def isHttp (url : Str) : Bool :=
  (lit "http://").isPrefixOf url.lower || (lit "https://").isPrefixOf url.lower

/-- Allowlist http/https and encode parentheses; empty for anything unsafe. -/
def safeUrl (url : Str) : Str :=
  let url := compactUrl url
  if !isHttp url then [] else (url.replace '(' (lit "%28")).replace ')' (lit "%29")

/-! ## Sources and costs -/

/-- The bullet of one source. -/
def formatSource (result : Dict) : Str :=
  let title := escapeLinkText (result.getStr "title" "(untitled)")
  let url := safeUrl (result.getStr "url" "")
  if url ≠ [] then lit "- [" ++ title ++ lit "](" ++ url ++ lit ")" else lit "- " ++ title

def formatSources (results : List Dict) : Str :=
  if results.isEmpty then []
  else Str.join (lit "\n") (lit "**Sources:**" :: results.map formatSource)

omit [UnicodeData] in
/-- `f"{i}"` for an integer. -/
def intStr (i : Int) : Str := lit (toString i)

/-- The row of one cost entry. -/
def formatCostRow (entry : CostEntry) : Str :=
  lit "| " ++ entry.node ++ lit " | " ++ entry.model ++ lit " " ++
    (lit "| " ++ intStr entry.inputTokens ++ lit " | " ++ intStr entry.outputTokens ++ lit " ") ++
    (lit "| $" ++ formatFixed 6 entry.costUsd ++ lit " |")

/-- The sum of the entries' costs. -/
def totalCost (costLog : List CostEntry) : ℚ := (costLog.map (·.costUsd)).sum

def formatTotal (total : ℚ) : Str := lit "**Total: $" ++ formatFixed 6 total ++ lit "**"

def formatCostTable (costLog : List CostEntry) : Str :=
  let head :=
    [lit "## Run Cost",
     lit "",
     lit "| Node | Model | Input | Output | Cost |",
     lit "|------|-------|-------|--------|------|"]
  Str.join (lit "\n")
    (head ++ costLog.map formatCostRow ++ [lit "", formatTotal (totalCost costLog)])

/-! ## The report -/

/-- `d.setdefault(key, []).extend(items)`. -/
def extendEntry (d : List (Str × List Dict)) (key : Str) (items : List Dict) :
    List (Str × List Dict) :=
  match d with
  | [] => [(key, items)]
  | (k, found) :: d =>
    if k = key then (k, found ++ items) :: d else (k, found) :: extendEntry d key items

/-- The raw results found for each sub-question, merged where one repeats. -/
def sourcesByQuestion (searchResults : List SearchResult) : List (Str × List Dict) :=
  searchResults.foldl (fun d sr => extendEntry d sr.subQuestion sr.results) []

/-- One section: heading, summary, and its sources if there are any. -/
def formatSection (sources : List (Str × List Dict)) (summary : Summary) : Str :=
  let sourceList := formatSources ((sources.lookup summary.subQuestion).getD [])
  Str.join (lit "\n\n")
    ([lit "## " ++ oneline summary.subQuestion, summary.content] ++
      if sourceList ≠ [] then [sourceList] else [])

/-- The text of `final_report`. -/
def reportText (state : ResearchState) : Str :=
  let question := oneline (state.question.getD [])
  let intro := state.reportIntro.getD []
  let conclusion := state.reportConclusion.getD []
  let sources := sourcesByQuestion state.searchResults
  Str.join (lit "\n\n")
    ([lit "# Research Report: " ++ question] ++
      (if intro ≠ [] then [lit "## Executive Summary\n\n" ++ intro] else []) ++
      state.summaries.map (formatSection sources) ++
      (if conclusion ≠ [] then [lit "## Conclusion\n\n" ++ conclusion] else []) ++
      (if state.costLog ≠ [] then [formatCostTable state.costLog] else []))

/-- Build `final_report` from the state. -/
def reporterNode (state : ResearchState) : Update :=
  { finalReport := some (reportText state) }

/-! ## What the reporter finds for a sub-question -/

omit [UnicodeData] in
theorem lookup_cons_eq_ite {β : Type} (k q : Str) (v : β) (d : List (Str × β)) :
    ((k, v) :: d).lookup q = if k = q then some v else d.lookup q := by
  by_cases h : k = q
  · simp [h]
  · rw [List.lookup_cons, beq_false_of_ne (Ne.symm h), if_neg h]

omit [UnicodeData] in
theorem lookup_extendEntry (d : List (Str × List Dict)) (key q : Str) (items : List Dict) :
    ((extendEntry d key items).lookup q).getD [] =
      (d.lookup q).getD [] ++ if key = q then items else [] := by
  induction d with
  | nil =>
    rw [extendEntry, lookup_cons_eq_ite]
    split <;> simp
  | cons e d ih =>
    obtain ⟨k, found⟩ := e
    rw [extendEntry]
    by_cases hk : k = key
    · rw [if_pos hk, lookup_cons_eq_ite, lookup_cons_eq_ite, hk]
      by_cases hq : key = q <;> simp [hq]
    · rw [if_neg hk, lookup_cons_eq_ite, lookup_cons_eq_ite]
      by_cases hq : k = q
      · have hkey : key ≠ q := fun h => hk (hq.trans h.symm)
        simp [hq, hkey]
      · simp [hq, ih]

omit [UnicodeData] in
/-- The dictionary holds, for every sub-question, the results of the search
    results recorded under it, one after another. -/
theorem lookup_sourcesByQuestion (searchResults : List SearchResult) (q : Str) :
    ((sourcesByQuestion searchResults).lookup q).getD [] =
      (searchResults.filter (·.subQuestion = q)).flatMap (·.results) := by
  have hfold : ∀ (rs : List SearchResult) (d : List (Str × List Dict)),
      ((rs.foldl (fun d sr => extendEntry d sr.subQuestion sr.results) d).lookup q).getD [] =
        (d.lookup q).getD [] ++ (rs.filter (·.subQuestion = q)).flatMap (·.results) := by
    intro rs
    induction rs with
    | nil => simp
    | cons r rs ih =>
      intro d
      rw [List.foldl_cons, ih, lookup_extendEntry]
      by_cases h : r.subQuestion = q <;> simp [h]
  rw [sourcesByQuestion, hfold]
  simp

end ResearchSynthesis
