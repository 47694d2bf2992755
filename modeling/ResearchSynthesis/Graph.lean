-- SUMMARY: `graph.py`: the fan-out/fan-in wiring of the research pipeline.
import ResearchSynthesis.Agents.Searcher
import ResearchSynthesis.Agents.Summarizer
import ResearchSynthesis.Agents.Supervisor
import ResearchSynthesis.Report
import ResearchSynthesis.StateGraph.Run

/-!
# The research graph

`START → decompose → [Send research × N] → assemble → reporter → END`. What the
model, Tavily and Langfuse do during a run is its `World`; a branch is told
apart by the index of its `Send`.
-/

namespace ResearchSynthesis
open Python StateGraph

variable [UnicodeData]

inductive Node where
  | decompose
  | research
  | assemble
  | reporter
  deriving DecidableEq

/-- The outside of one research branch. -/
structure Branch where
  /-- What making the HTTP client, and with the key the Tavily client, does. -/
  tavilyClient : Str → Except Exn Unit := fun _ => .ok ()
  tavily : SearchFn
  haiku : LlmCall AIMessage

/-- The outside of a run. -/
structure World where
  settings : Settings
  decomposeCall : LlmCall (IncludeRaw DecomposedQuestion)
  branch : Nat → Branch
  assembleCall : LlmCall (IncludeRaw AssembledReport)

omit [UnicodeData] in
/-- One `Send` per sub-question, capped at `maxSubQuestions`. -/
def fanOutResearch (settings : Settings) (state : ResearchState) :
    Except Exn (List (Send Node Payload)) :=
  match state.subQuestions with
  | none => .error ⟨.keyError, lit "'sub_questions'"⟩
  | some subQuestions =>
    let capped := subQuestions.take settings.maxSubQuestions
    .ok (capped.mapIdx fun i q => ⟨.research, ⟨q, i⟩⟩)

/-- One sub-question end to end: search, then summarize, both updates merged. -/
def researchNode (settings : Settings) (branch : Branch) (payload : Payload) : Calling Update := do
  let searchUpdate ← searcherNode settings payload branch.tavilyClient branch.tavily
  match searchUpdate.searchResults with
  | some (searchResult :: _) =>
    let summaryUpdate ← summarizerNode settings searchResult branch.haiku
    return searchUpdate.merge summaryUpdate
  | _ => .raise ⟨.keyError, lit "'search_results'"⟩

/-- What calling a node comes to. Only `research` is ever sent a payload. -/
def World.call (w : World) : Node → ResearchState → Option Payload → Calling Update
  | .decompose, state, _ => decomposeNode w.settings w.decomposeCall state
  | .research, _, some payload => researchNode w.settings (w.branch payload.index) payload
  | .research, _, none => .raise ⟨.keyError, lit "'sub_question'"⟩
  | .assemble, state, _ => assembleNode w.settings w.assembleCall state
  | .reporter, state, _ => return reporterNode state

/-- What a node returns. -/
def World.exec (w : World) (n : Node) (state : ResearchState) (payload : Option Payload) :
    Except Exn Update :=
  (w.call n state payload).outcome

/-- The compiled graph. -/
def buildGraph (w : World) : StateGraph.Graph Node ResearchState Payload Update Exn where
  exec := w.exec
  edges :=
    [(.START, .node .decompose),
     (.node .research, .node .assemble),
     (.node .assemble, .node .reporter),
     (.node .reporter, .END)]
  conditionalEdges := [(.decompose, fanOutResearch w.settings)]

/-! ## Clients -/

omit [UnicodeData] in
/-- Making the model and the callbacks of the decomposition. -/
def World.decomposeClients (w : World) : Except Exn RunnableConfig :=
  w.decomposeCall.setup w.settings w.settings.supervisorModel supervisorMaxTokens

omit [UnicodeData] in
/-- Making all clients of a branch, the searcher's first. -/
def Branch.clients (branch : Branch) (settings : Settings) : Except Exn RunnableConfig := do
  branch.tavilyClient settings.tavilyApiKey
  branch.haiku.setup settings settings.workerModel summarizerMaxTokens

omit [UnicodeData] in
def World.assembleClients (w : World) : Except Exn RunnableConfig :=
  w.assembleCall.setup w.settings w.settings.supervisorModel supervisorMaxTokens

omit [UnicodeData] in
/-- A world in which every search finds one page and every model call answers. -/
def sunnyWorld : World where
  settings := keyedSettings
  decomposeCall :=
    { invoke := fun _ => .ok
        { raw := some ⟨.string [], some ⟨100, 50⟩⟩
          parsed := some ⟨[lit "first", lit "second", lit "third"], lit "intent", by decide, by decide⟩
          parsingError := none }
      latencyMs := 10 }
  branch _ :=
    { tavily := fun _ _ => .ok
        [(lit "results", .list [.dict [(lit "title", .string (lit "page"))]])]
      haiku := { invoke := fun _ => .ok ⟨.string (lit "summary"), some ⟨200, 70⟩⟩, latencyMs := 10 } }
  assembleCall :=
    { invoke := fun _ => .ok
        { raw := some ⟨.string [], some ⟨300, 90⟩⟩
          parsed := some ⟨lit "introduction", lit "conclusion"⟩
          parsingError := none }
      latencyMs := 10 }

end ResearchSynthesis
