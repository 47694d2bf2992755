-- SUMMARY: `state.py`: the records that flow through the graph, its channels, and partial updates.
import ResearchSynthesis.Python.Value
import ResearchSynthesis.StateGraph.Graph
import Mathlib.Data.Rat.Defs

/-!
# Graph state

The state the nodes read and the partial updates they return. A plain channel
is absent until something writes it; a reducer channel starts out empty.
Floats are exact rationals.
-/

namespace ResearchSynthesis
open Python

/-- Raw Tavily results for one sub-question, produced by a searcher node. -/
structure SearchResult where
  subQuestion : Str
  results : List Dict
  nodeId : Str
  error : Option Str := none

/-- A condensed section written by a summarizer node. -/
structure Summary where
  subQuestion : Str
  content : Str
  tokensUsed : Int
  model : Str
  costUsd : ℚ

/-- One row per LLM call. -/
structure CostEntry where
  node : Str
  model : Str
  inputTokens : Int
  outputTokens : Int
  costUsd : ℚ
  latencyMs : Int

/-- The keys of the state. -/
inductive Channel where
  | question
  | subQuestions
  | searchResults
  | summaries
  | reportIntro
  | reportConclusion
  | finalReport
  | costLog
  | error
  deriving DecidableEq

/-- The channels annotated with the `operator.add` reducer. -/
def Channel.isReducer : Channel → Bool
  | .searchResults | .summaries | .costLog => true
  | _ => false

structure ResearchState where
  question : Option Str := none
  subQuestions : Option (List Str) := none
  searchResults : List SearchResult := []
  summaries : List Summary := []
  reportIntro : Option Str := none
  reportConclusion : Option Str := none
  finalReport : Option Str := none
  costLog : List CostEntry := []
  error : Option Str := none

/-- A partial update: the keys a node's dict carries. -/
structure Update where
  question : Option Str := none
  subQuestions : Option (List Str) := none
  searchResults : Option (List SearchResult) := none
  summaries : Option (List Summary) := none
  reportIntro : Option Str := none
  reportConclusion : Option Str := none
  finalReport : Option Str := none
  costLog : Option (List CostEntry) := none
  error : Option Str := none

namespace Update

/-- `{**u, **v}`. -/
def merge (u v : Update) : Update where
  question := v.question <|> u.question
  subQuestions := v.subQuestions <|> u.subQuestions
  searchResults := v.searchResults <|> u.searchResults
  summaries := v.summaries <|> u.summaries
  reportIntro := v.reportIntro <|> u.reportIntro
  reportConclusion := v.reportConclusion <|> u.reportConclusion
  finalReport := v.finalReport <|> u.finalReport
  costLog := v.costLog <|> u.costLog
  error := v.error <|> u.error

/-- Whether the update carries the key. -/
def has (u : Update) : Channel → Bool
  | .question => u.question.isSome
  | .subQuestions => u.subQuestions.isSome
  | .searchResults => u.searchResults.isSome
  | .summaries => u.summaries.isSome
  | .reportIntro => u.reportIntro.isSome
  | .reportConclusion => u.reportConclusion.isSome
  | .finalReport => u.finalReport.isSome
  | .costLog => u.costLog.isSome
  | .error => u.error.isSome

/-- The keys of the update. -/
def keys (u : Update) : List Channel :=
  [.question, .subQuestions, .searchResults, .summaries, .reportIntro, .reportConclusion,
    .finalReport, .costLog, .error].filter u.has

/-- The two updates write the same to a key. -/
def SameAt (u v : Update) : Channel → Prop
  | .question => u.question = v.question
  | .subQuestions => u.subQuestions = v.subQuestions
  | .searchResults => u.searchResults = v.searchResults
  | .summaries => u.summaries = v.summaries
  | .reportIntro => u.reportIntro = v.reportIntro
  | .reportConclusion => u.reportConclusion = v.reportConclusion
  | .finalReport => u.finalReport = v.finalReport
  | .costLog => u.costLog = v.costLog
  | .error => u.error = v.error

theorem mem_keys {u : Update} {k : Channel} : k ∈ u.keys ↔ u.has k := by
  have hall : k ∈ [Channel.question, .subQuestions, .searchResults, .summaries, .reportIntro,
      .reportConclusion, .finalReport, .costLog, .error] := by cases k <;> decide
  simp [keys, hall]

theorem nodup_keys (u : Update) : u.keys.Nodup := by
  refine List.Nodup.filter _ ?_
  decide

theorem orElse_of_isSome {α : Type} {a b : Option α} (h : a.isSome) : (a <|> b) = a := by
  cases a <;> simp_all

theorem orElse_of_not_isSome {α : Type} {a b : Option α} (h : a.isSome = false) :
    (a <|> b) = b := by
  cases a <;> simp_all

/-- The second dict of a merge is kept whole. -/
theorem merge_sameAt_right {u v : Update} {k : Channel} (h : k ∈ v.keys) :
    (u.merge v).SameAt v k := by
  rw [mem_keys] at h
  cases k <;> exact orElse_of_isSome h

/-- The first one is, but for the keys it shares with the second. -/
theorem merge_sameAt_left {u v : Update} {k : Channel} (h : k ∉ v.keys) :
    (u.merge v).SameAt u k := by
  rw [mem_keys, Bool.not_eq_true] at h
  cases k <;> exact orElse_of_not_isSome h

end Update

namespace ResearchState

/-- Write an update: a reducer channel is extended, a plain one replaced. -/
def apply (s : ResearchState) (u : Update) : ResearchState where
  question := u.question <|> s.question
  subQuestions := u.subQuestions <|> s.subQuestions
  searchResults := s.searchResults ++ u.searchResults.getD []
  summaries := s.summaries ++ u.summaries.getD []
  reportIntro := u.reportIntro <|> s.reportIntro
  reportConclusion := u.reportConclusion <|> s.reportConclusion
  finalReport := u.finalReport <|> s.finalReport
  costLog := s.costLog ++ u.costLog.getD []
  error := u.error <|> s.error

/-- How updates write `ResearchState`. -/
def schema : StateGraph.Schema Channel ResearchState Update where
  keys := Update.keys
  hasReducer := Channel.isReducer
  merge := apply

end ResearchState

end ResearchSynthesis
