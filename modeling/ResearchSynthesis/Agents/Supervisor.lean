-- SUMMARY: `agents/supervisor.py`: decompose the question (essential) and assemble the framing prose (not essential).
import ResearchSynthesis.Agents.Llm

/-! # Supervisor -/

namespace ResearchSynthesis
open Python

variable [UnicodeData]

def decomposeSystem : Str := lit <|
  "You are a research director. Given a user's open-ended question, break it into 3-5 " ++
  "atomic, independently researchable sub-questions that together cover the question. Each " ++
  "sub-question must stand alone (no pronouns referring to the others). Also state, in one " ++
  "sentence, what the user actually needs to know."

def assembleSystem : Str := lit <|
  "You are a research director assembling a report. Given the original question and the " ++
  "section summaries, write a cohesive executive summary and a conclusion that synthesize " ++
  "the findings. Do not repeat the section summaries verbatim — add connective insight. " ++
  "Keep each to 2-4 sentences."

/-- A decomposition, as pydantic accepts it: three to five sub-questions. -/
structure DecomposedQuestion where
  subQuestions : List Str
  researchIntent : Str
  length_ge : 3 ≤ subQuestions.length
  length_le : subQuestions.length ≤ 5

structure AssembledReport where
  executiveSummary : Str
  conclusion : Str

def buildDecomposeMessages (question : Str) : List Message :=
  [.system decomposeSystem false, .human question]

def formatSummaries (summaries : List Summary) : Str :=
  Str.join (lit "\n\n") (summaries.map fun s =>
    lit "Sub-question: " ++ s.subQuestion ++ lit "\n" ++ s.content)

def buildAssembleMessages (question : Str) (summaries : List Summary) : List Message :=
  [.system assembleSystem false,
   .human (lit "Original question: " ++ question ++ lit "\n\n" ++
     lit "Section summaries:\n" ++ formatSummaries summaries ++ lit "\n\n" ++
     lit "Write the executive summary and conclusion.")]

/-- The (input, output) token counts of the raw message; zeros if unavailable. -/
def tokens (raw : Option AIMessage) : Int × Int :=
  match raw.bind (·.usageMetadata) with
  | none => (0, 0)
  | some usage => (usage.inputTokens, usage.outputTokens)

/-- Decompose the question; raises if the model gives no valid decomposition. -/
def runDecompose (question modelName : Str) (call : LlmCall (IncludeRaw DecomposedQuestion)) :
    Calling (DecomposedQuestion × CostEntry) := do
  let result ← call.ainvoke (buildDecomposeMessages question)
  match result.parsed with
  | none =>
    let parsingError := (result.parsingError.map (·.message)).getD (lit "None")
    .raise ⟨.valueError, lit "Failed to decompose into 3-5 sub-questions: " ++ parsingError⟩
  | some parsed =>
    let (inputTokens, outputTokens) := tokens result.raw
    let entry ← logLlmCall (lit "supervisor_decompose") modelName inputTokens outputTokens
      call.latencyMs
    return (parsed, entry)

/-- The report's framing, or placeholders when the call or the parse fails. -/
def runAssemble (question : Str) (summaries : List Summary) (modelName : Str)
    (call : LlmCall (IncludeRaw AssembledReport)) : Calling (AssembledReport × CostEntry) := do
  match ← (call.ainvoke (buildAssembleMessages question summaries)).attempt with
  | .error _ =>
    let entry ← logLlmCall (lit "supervisor_assemble") modelName 0 0 call.latencyMs
    return (⟨[], []⟩, entry)
  | .ok result =>
    let parsed := result.parsed.getD ⟨[], []⟩
    let (inputTokens, outputTokens) := tokens result.raw
    let entry ← logLlmCall (lit "supervisor_assemble") modelName inputTokens outputTokens
      call.latencyMs
    return (parsed, entry)

/-- `state["question"]`. -/
def ResearchState.requireQuestion (state : ResearchState) : Except Exn Str :=
  match state.question with
  | some question => .ok question
  | none => .error ⟨.keyError, lit "'question'"⟩

def supervisorMaxTokens : Nat := 1024

/-- Split the question into sub-questions. -/
def decomposeNode (settings : Settings) (call : LlmCall (IncludeRaw DecomposedQuestion))
    (state : ResearchState) : Calling Update := do
  let question ← state.requireQuestion
  let _ ← call.setup settings settings.supervisorModel supervisorMaxTokens
  let (decomposed, entry) ← runDecompose question settings.supervisorModel call
  return { subQuestions := some decomposed.subQuestions, costLog := some [entry] }

/-- Write the report's introduction and conclusion from the summaries. -/
def assembleNode (settings : Settings) (call : LlmCall (IncludeRaw AssembledReport))
    (state : ResearchState) : Calling Update := do
  let question ← state.requireQuestion
  let _ ← call.setup settings settings.supervisorModel supervisorMaxTokens
  let (report, entry) ← runAssemble question state.summaries settings.supervisorModel call
  return { reportIntro := some report.executiveSummary
           reportConclusion := some report.conclusion
           costLog := some [entry] }

/-! ## What the supervisor returns -/

omit [UnicodeData] in
theorem requireQuestion_eq_ok_iff {state : ResearchState} {question : Str} :
    state.requireQuestion = .ok question ↔ state.question = some question := by
  unfold ResearchState.requireQuestion
  cases state.question <;> simp

theorem outcome_runDecompose (question modelName : Str)
    (call : LlmCall (IncludeRaw DecomposedQuestion)) :
    (runDecompose question modelName call).outcome =
      (call.invoke (buildDecomposeMessages question) >>= fun result =>
        match result.parsed with
        | none => .error ⟨.valueError, lit "Failed to decompose into 3-5 sub-questions: " ++
            (result.parsingError.map (·.message)).getD (lit "None")⟩
        | some parsed =>
          (logLlmCall (lit "supervisor_decompose") modelName (tokens result.raw).1
            (tokens result.raw).2 call.latencyMs).map fun entry => (parsed, entry)) := by
  rw [runDecompose, Calling.outcome_bind]
  congr
  funext result
  cases result.parsed with
  | none => rfl
  | some parsed => exact Calling.outcome_lift_map _ _

theorem runDecompose_eq_ok_iff {question modelName : Str}
    {call : LlmCall (IncludeRaw DecomposedQuestion)} {x : DecomposedQuestion × CostEntry} :
    (runDecompose question modelName call).outcome = .ok x ↔
      ∃ result, call.invoke (buildDecomposeMessages question) = .ok result ∧
        result.parsed = some x.1 ∧
        logLlmCall (lit "supervisor_decompose") modelName (tokens result.raw).1
          (tokens result.raw).2 call.latencyMs = .ok x.2 := by
  obtain ⟨decomposed, entry⟩ := x
  rw [outcome_runDecompose, bind_eq_ok_iff]
  refine exists_congr fun result => and_congr_right fun _ => ?_
  cases hparsed : result.parsed with
  | none => simp
  | some parsed =>
    cases logLlmCall (lit "supervisor_decompose") modelName (tokens result.raw).1
      (tokens result.raw).2 call.latencyMs <;> simp [Except.map]

omit [UnicodeData] in
/-- What an assemble call comes to: the prose, with the tokens to account for. -/
def assembled : Except Exn (IncludeRaw AssembledReport) → AssembledReport × Int × Int
  | .error _ => (⟨[], []⟩, 0, 0)
  | .ok result => (result.parsed.getD ⟨[], []⟩, tokens result.raw)

/-- Whatever the call does, one entry is made for it. -/
theorem outcome_runAssemble (question modelName : Str) (summaries : List Summary)
    (call : LlmCall (IncludeRaw AssembledReport)) :
    (runAssemble question summaries modelName call).outcome =
      let result := assembled (call.invoke (buildAssembleMessages question summaries))
      (logLlmCall (lit "supervisor_assemble") modelName result.2.1 result.2.2 call.latencyMs).map
        fun entry => (result.1, entry) := by
  rw [runAssemble, Calling.outcome_bind, Calling.outcome_attempt]
  cases hinvoke : call.invoke (buildAssembleMessages question summaries) with
  | error exc =>
    simp only [LlmCall.ainvoke, hinvoke, assembled]
    exact Calling.outcome_lift_map _ _
  | ok result =>
    simp only [LlmCall.ainvoke, hinvoke, assembled]
    exact Calling.outcome_lift_map _ _

theorem runAssemble_eq_ok_iff {question modelName : Str} {summaries : List Summary}
    {call : LlmCall (IncludeRaw AssembledReport)} {x : AssembledReport × CostEntry} :
    (runAssemble question summaries modelName call).outcome = .ok x ↔
      let result := assembled (call.invoke (buildAssembleMessages question summaries))
      x.1 = result.1 ∧
        logLlmCall (lit "supervisor_assemble") modelName result.2.1 result.2.2 call.latencyMs =
          .ok x.2 := by
  obtain ⟨report, entry⟩ := x
  rw [outcome_runAssemble]
  dsimp only
  generalize assembled (call.invoke (buildAssembleMessages question summaries)) = result
  cases logLlmCall (lit "supervisor_assemble") modelName result.2.1 result.2.2 call.latencyMs with
  | error e => simp [Except.map]
  | ok entry' => simp [Except.map, eq_comm]

theorem decomposeNode_eq_ok_iff {settings : Settings}
    {call : LlmCall (IncludeRaw DecomposedQuestion)} {state : ResearchState} {u : Update} :
    (decomposeNode settings call state).outcome = .ok u ↔
      ∃ question, state.question = some question ∧
        (∃ config, call.setup settings settings.supervisorModel supervisorMaxTokens = .ok config) ∧
        ∃ x, (runDecompose question settings.supervisorModel call).outcome = .ok x ∧
          u = { subQuestions := some x.1.subQuestions, costLog := some [x.2] } := by
  simp only [decomposeNode, Calling.outcome_bind, Calling.outcome_lift, bind_eq_ok_iff,
    requireQuestion_eq_ok_iff]
  constructor
  · rintro ⟨question, hquestion, config, hconfig, x, hx, heq⟩
    exact ⟨question, hquestion, ⟨config, hconfig⟩, x, hx, (Except.ok.inj heq).symm⟩
  · rintro ⟨question, hquestion, ⟨config, hconfig⟩, x, hx, rfl⟩
    exact ⟨question, hquestion, config, hconfig, x, hx, rfl⟩

theorem assembleNode_eq_ok_iff {settings : Settings} {call : LlmCall (IncludeRaw AssembledReport)}
    {state : ResearchState} {u : Update} :
    (assembleNode settings call state).outcome = .ok u ↔
      ∃ question, state.question = some question ∧
        (∃ config, call.setup settings settings.supervisorModel supervisorMaxTokens = .ok config) ∧
        ∃ x, (runAssemble question state.summaries settings.supervisorModel call).outcome = .ok x ∧
          u = { reportIntro := some x.1.executiveSummary
                reportConclusion := some x.1.conclusion
                costLog := some [x.2] } := by
  simp only [assembleNode, Calling.outcome_bind, Calling.outcome_lift, bind_eq_ok_iff,
    requireQuestion_eq_ok_iff]
  constructor
  · rintro ⟨question, hquestion, config, hconfig, x, hx, heq⟩
    exact ⟨question, hquestion, ⟨config, hconfig⟩, x, hx, (Except.ok.inj heq).symm⟩
  · rintro ⟨question, hquestion, ⟨config, hconfig⟩, x, hx, rfl⟩
    exact ⟨question, hquestion, config, hconfig, x, hx, rfl⟩

/-! ## How often it prompts the model -/

theorem within_runDecompose (question modelName : Str)
    (call : LlmCall (IncludeRaw DecomposedQuestion)) :
    (runDecompose question modelName call).Within 0 1 := by
  refine (within_ainvoke call _).then_free fun result => ?_
  cases result.parsed with
  | none => exact ⟨le_rfl, le_rfl⟩
  | some parsed => exact Calling.within_lift_bind fun _ => Calling.within_pure _

theorem within_runAssemble (question modelName : Str) (summaries : List Summary)
    (call : LlmCall (IncludeRaw AssembledReport)) :
    (runAssemble question summaries modelName call).Within 0 1 := by
  refine (within_ainvoke call _).attempt.then_free fun outcome => ?_
  cases outcome with
  | error exc => exact Calling.within_lift_bind fun _ => Calling.within_pure _
  | ok result => exact Calling.within_lift_bind fun _ => Calling.within_pure _

theorem within_decomposeNode (settings : Settings) (call : LlmCall (IncludeRaw DecomposedQuestion))
    (state : ResearchState) : (decomposeNode settings call state).Within 0 1 :=
  Calling.within_lift_bind fun _ => Calling.within_lift_bind fun _ =>
    (within_runDecompose _ _ call).then_free fun _ => Calling.within_pure _

theorem within_assembleNode (settings : Settings) (call : LlmCall (IncludeRaw AssembledReport))
    (state : ResearchState) : (assembleNode settings call state).Within 0 1 :=
  Calling.within_lift_bind fun _ => Calling.within_lift_bind fun _ =>
    (within_runAssemble _ _ _ call).then_free fun _ => Calling.within_pure _

end ResearchSynthesis
