-- SUMMARY: `agents/summarizer.py`: condense one search result with one Haiku call, or degrade to a note.
import ResearchSynthesis.Agents.Llm

/-! # Summarizer -/

namespace ResearchSynthesis
open Python

variable [UnicodeData]

def systemPrompt : Str := lit <|
  "You are a research summarizer. Given a sub-question and raw web search results, " ++
  "write a single cohesive summary of 150-250 words that answers the sub-question using " ++
  "only the provided results. State key facts plainly and attribute claims to their source " ++
  "titles. If the results are thin or conflicting, add a short confidence note. Do not invent " ++
  "facts beyond the results, and do not include a preamble — output only the summary."

/-- One numbered source of the prompt. -/
def formatResult (i : Nat) (result : Dict) : Str :=
  lit "[" ++ natStr i ++ lit "] " ++ result.getStr "title" "(untitled)" ++
    lit " (" ++ result.getStr "url" "" ++ lit ")\n" ++ result.getStr "content" ""

/-- Render Tavily results as a numbered source list for the prompt. -/
def formatResults (results : List Dict) : Str :=
  Str.join (lit "\n\n") (results.mapIdx fun i result => formatResult (i + 1) result)

def buildMessages (subQuestion : Str) (results : List Dict) : List Message :=
  [.system systemPrompt true,
   .human (lit "Sub-question: " ++ subQuestion ++ lit "\n\n" ++
     lit "Search results:\n" ++ formatResults results ++ lit "\n\n" ++
     lit "Write the summary.")]

/-- A summary, and its cost entry if a model call returned. -/
structure Summarized where
  summary : Summary
  entry : Option CostEntry

/-- The note that stands in for a summary when there is nothing to summarize. -/
def emptyNote (searchResult : SearchResult) : Str :=
  let note := lit "No search results were available for " ++ searchResult.subQuestion.repr ++
    lit "; " ++ lit "unable to summarize (low confidence)."
  match searchResult.error with
  | some error => if error.isEmpty then note else note ++ lit " Search error: " ++ error
  | none => note

/-- A summary that no model call paid for. -/
def unpaidSummary (searchResult : SearchResult) (modelName content : Str) : Summary :=
  { subQuestion := searchResult.subQuestion
    content
    tokensUsed := 0
    model := modelName
    costUsd := 0 }

/-- Summarize one search result. -/
def runSummarize (searchResult : SearchResult) (modelName : Str) (call : LlmCall AIMessage) :
    Calling Summarized := do
  let subQuestion := searchResult.subQuestion
  let results := searchResult.results
  if results.isEmpty then
    return ⟨unpaidSummary searchResult modelName (emptyNote searchResult), none⟩
  else
    match ← (call.ainvoke (buildMessages subQuestion results)).attempt with
    | .error exc =>
      let content := lit "Failed to summarize " ++ subQuestion.repr ++
        lit " (search succeeded): " ++ exc.message
      return ⟨unpaidSummary searchResult modelName content, none⟩
    | .ok response =>
      let inputTokens := (response.usageMetadata.map (·.inputTokens)).getD 0
      let outputTokens := (response.usageMetadata.map (·.outputTokens)).getD 0
      let entry ← logLlmCall (lit "summarizer") modelName inputTokens outputTokens call.latencyMs
      let summary :=
        { subQuestion
          content := response.content.str
          tokensUsed := inputTokens + outputTokens
          model := modelName
          costUsd := entry.costUsd }
      return ⟨summary, some entry⟩

/-- The update of a summarizer: the summary, and the cost entry if there is one. -/
def Summarized.update (s : Summarized) : Update :=
  { summaries := some [s.summary], costLog := s.entry.map ([·]) }

def summarizerMaxTokens : Nat := 512

/-- Summarize one search result, return a partial state update. -/
def summarizerNode (settings : Settings) (searchResult : SearchResult) (call : LlmCall AIMessage) :
    Calling Update := do
  let _ ← call.setup settings settings.workerModel summarizerMaxTokens
  let summarized ← runSummarize searchResult settings.workerModel call
  return summarized.update

theorem outcome_summarizerNode (settings : Settings) (searchResult : SearchResult)
    (call : LlmCall AIMessage) :
    (summarizerNode settings searchResult call).outcome = do
      let _ ← call.setup settings settings.workerModel summarizerMaxTokens
      let summarized ← (runSummarize searchResult settings.workerModel call).outcome
      return summarized.update := by
  rw [summarizerNode, Calling.outcome_bind, Calling.outcome_lift]
  congr
  funext config
  exact Calling.outcome_bind _ _

/-! ## What a summarizer returns -/

/-- The summary of a response whose call is on the cost log as `entry`. -/
def paidSummary (searchResult : SearchResult) (modelName : Str) (response : AIMessage)
    (entry : CostEntry) : Summary :=
  { subQuestion := searchResult.subQuestion
    content := response.content.str
    tokensUsed := entry.inputTokens + entry.outputTokens
    model := modelName
    costUsd := entry.costUsd }

omit [UnicodeData] in
/-- The tokens of a response; zeros if it comes without usage. -/
def AIMessage.tokens (response : AIMessage) : Int × Int :=
  ((response.usageMetadata.map (·.inputTokens)).getD 0,
    (response.usageMetadata.map (·.outputTokens)).getD 0)

/-- What a summarizer comes to: nothing to summarize, a call that raised, a call
    that returned. -/
theorem outcome_runSummarize (searchResult : SearchResult) (modelName : Str)
    (call : LlmCall AIMessage) :
    (runSummarize searchResult modelName call).outcome =
      if searchResult.results = [] then
        .ok ⟨unpaidSummary searchResult modelName (emptyNote searchResult), none⟩
      else
        match call.invoke (buildMessages searchResult.subQuestion searchResult.results) with
        | .error exc =>
          .ok ⟨unpaidSummary searchResult modelName
            (lit "Failed to summarize " ++ searchResult.subQuestion.repr ++
              lit " (search succeeded): " ++ exc.message), none⟩
        | .ok response =>
          (logLlmCall (lit "summarizer") modelName response.tokens.1 response.tokens.2
            call.latencyMs).map fun entry =>
              ⟨paidSummary searchResult modelName response entry, some entry⟩ := by
  rw [runSummarize]
  by_cases hempty : searchResult.results = []
  · simp [hempty]
  rw [if_neg (by simpa using hempty), if_neg hempty, Calling.outcome_bind, Calling.outcome_attempt]
  cases hinvoke : call.invoke (buildMessages searchResult.subQuestion searchResult.results) with
  | error exc =>
    simp only [LlmCall.ainvoke, hinvoke]
    rfl
  | ok response =>
    simp only [LlmCall.ainvoke, hinvoke]
    refine (Calling.outcome_lift_map _ _).trans ?_
    change (logLlmCall (lit "summarizer") modelName response.tokens.1 response.tokens.2
      call.latencyMs).map _ = _
    cases hlog : logLlmCall (lit "summarizer") modelName response.tokens.1 response.tokens.2
        call.latencyMs with
    | error e => rfl
    | ok entry =>
      obtain ⟨cost, -, rfl⟩ := logLlmCall_eq_ok_iff.mp hlog
      rfl

/-- The three ways a summarizer returns. -/
theorem runSummarize_eq_ok_iff {searchResult : SearchResult} {modelName : Str}
    {call : LlmCall AIMessage} {x : Summarized} :
    (runSummarize searchResult modelName call).outcome = .ok x ↔
      (searchResult.results = [] ∧
        x = ⟨unpaidSummary searchResult modelName (emptyNote searchResult), none⟩) ∨
      (∃ exc, searchResult.results ≠ [] ∧
        call.invoke (buildMessages searchResult.subQuestion searchResult.results) = .error exc ∧
        x = ⟨unpaidSummary searchResult modelName
              (lit "Failed to summarize " ++ searchResult.subQuestion.repr ++
                lit " (search succeeded): " ++ exc.message), none⟩) ∨
      ∃ response entry, searchResult.results ≠ [] ∧
        call.invoke (buildMessages searchResult.subQuestion searchResult.results) = .ok response ∧
        logLlmCall (lit "summarizer") modelName response.tokens.1 response.tokens.2
          call.latencyMs = .ok entry ∧
        x = ⟨paidSummary searchResult modelName response entry, some entry⟩ := by
  rw [outcome_runSummarize]
  by_cases hempty : searchResult.results = []
  · simp [hempty, eq_comm]
  rw [if_neg hempty]
  cases hinvoke : call.invoke (buildMessages searchResult.subQuestion searchResult.results) with
  | error exc => simp [hempty, eq_comm]
  | ok response =>
    cases hlog : logLlmCall (lit "summarizer") modelName response.tokens.1 response.tokens.2
        call.latencyMs with
    | error e => simp [hempty, hlog, Except.map]
    | ok entry => simp [hempty, hlog, Except.map, eq_comm]

/-- The model is prompted once, with the results, if there are any. -/
theorem prompts_runSummarize (searchResult : SearchResult) (modelName : Str)
    (call : LlmCall AIMessage) :
    (runSummarize searchResult modelName call).prompts =
      if searchResult.results = [] then []
      else [buildMessages searchResult.subQuestion searchResult.results] := by
  rw [runSummarize]
  by_cases hempty : searchResult.results = []
  · simp only [hempty]
    rfl
  rw [if_neg (by simpa using hempty), if_neg hempty,
    Calling.prompts_bind_of_ok (Calling.outcome_attempt _)]
  cases hinvoke : call.invoke (buildMessages searchResult.subQuestion searchResult.results) with
  | error exc =>
    simp only [LlmCall.ainvoke, hinvoke]
    rfl
  | ok response =>
    simp only [LlmCall.ainvoke, hinvoke]
    exact congrArg (_ ++ ·) (Calling.prompts_lift_map _ _)

theorem within_runSummarize (searchResult : SearchResult) (modelName : Str)
    (call : LlmCall AIMessage) : (runSummarize searchResult modelName call).Within 0 1 := by
  rw [runSummarize]
  split
  · exact (Calling.within_pure _).mono le_rfl (Nat.zero_le _)
  · refine (within_ainvoke call _).attempt.then_free fun outcome => ?_
    cases outcome with
    | error exc => exact Calling.within_pure _
    | ok response => exact Calling.within_lift_bind fun _ => Calling.within_pure _

theorem within_summarizerNode (settings : Settings) (searchResult : SearchResult)
    (call : LlmCall AIMessage) : (summarizerNode settings searchResult call).Within 0 1 :=
  Calling.within_lift_bind fun _ =>
    (within_runSummarize searchResult settings.workerModel call).then_free fun _ =>
      Calling.within_pure _

end ResearchSynthesis
