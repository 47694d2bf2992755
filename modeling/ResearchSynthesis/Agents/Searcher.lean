-- SUMMARY: `agents/searcher.py`: one Tavily search with at most one retry, never raising.
import ResearchSynthesis.Agents.Calls
import ResearchSynthesis.Config
import ResearchSynthesis.State
import ResearchSynthesis.Python.Decimal

/-!
# Searcher

The search callable is an input: `search attempt query` is what its call number
`attempt` does. A result is also paired with the number of calls made.
-/

namespace ResearchSynthesis
open Python

variable [UnicodeData]

/-- A search callable, as the outcomes of its calls. -/
abbrev SearchFn := Nat → Str → Except Exn Dict

/-- Transient failures worth one retry. -/
def isRetryable (exc : Exn) : Bool :=
  match exc.cls with
  | .usageLimitExceededError => true
  | .httpStatusError statusCode => 500 ≤ statusCode
  | _ => false

/-- `item` if it is a dict. -/
def asDict : Json → Option Dict
  | .dict items => some items
  | _ => none

/-- The dicts of a response's `results` list. -/
def responseResults (response : Dict) : List Dict :=
  match response.get "results" with
  | some (.list items) => items.filterMap asDict
  | _ => []

/-- What a search came to: results or an error, and how many calls it took. -/
structure Searched where
  results : List Dict
  error : Option Str
  calls : Nat

/-- The loop over the attempts that are left. -/
def tavilyAttempts (subQuestion : Str) (search : SearchFn) : List Nat → Str → Searched
  | [], lastError => ⟨[], some lastError, 0⟩
  | attempt :: attempts, _ =>
    match search attempt subQuestion with
    | .error exc =>
      let lastError := lit "Tavily error for " ++ subQuestion.repr ++ lit ": " ++ exc.message
      if isRetryable exc ∧ attempt = 0 then
        let rest := tavilyAttempts subQuestion search attempts lastError
        { rest with calls := rest.calls + 1 }
      else ⟨[], some lastError, 1⟩
    | .ok response =>
      let results := responseResults response
      if results.isEmpty then ⟨[], some (lit "No results for " ++ subQuestion.repr), 1⟩
      else ⟨results, none, 1⟩

def runTavilySearch (subQuestion : Str) (search : SearchFn) : Searched :=
  tavilyAttempts subQuestion search (List.range 2) (lit "Tavily search failed")

/-- The payload of a `Send` to the research node. -/
structure Payload where
  subQuestion : Str
  index : Nat

/-- The search result a branch records. -/
def searchResultOf (payload : Payload) (search : SearchFn) : SearchResult :=
  let searched := runTavilySearch payload.subQuestion search
  { subQuestion := payload.subQuestion
    results := searched.results
    nodeId := lit "searcher_" ++ natStr payload.index
    error := searched.error }

/-- The search of a branch, with its calls. -/
def tavilySearch (payload : Payload) (search : SearchFn) : Calling SearchResult :=
  { outcome := .ok (searchResultOf payload search)
    searches := (runTavilySearch payload.subQuestion search).calls }

/-- Search one sub-question. The clients are made outside the `try` block of the
    search: `tavilyClient` is what making them with the key does. That the HTTP
    client is closed without an exception is assumed. -/
def searcherNode (settings : Settings) (payload : Payload) (tavilyClient : Str → Except Exn Unit)
    (search : SearchFn) : Calling Update := do
  tavilyClient settings.tavilyApiKey
  let result ← tavilySearch payload search
  return { searchResults := some [result] }

theorem outcome_searcherNode (settings : Settings) (payload : Payload)
    (tavilyClient : Str → Except Exn Unit) (search : SearchFn) :
    (searcherNode settings payload tavilyClient search).outcome =
      (tavilyClient settings.tavilyApiKey).map fun _ =>
        { searchResults := some [searchResultOf payload search] } := by
  rw [searcherNode, Calling.outcome_bind, Calling.outcome_lift]
  cases tavilyClient settings.tavilyApiKey <;> rfl

end ResearchSynthesis
