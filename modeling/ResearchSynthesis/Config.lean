-- SUMMARY: `config.py`: the settings the pipeline runs with.
import ResearchSynthesis.Python.Text

/-! # Settings -/

namespace ResearchSynthesis
open Python

/-- `Settings`, as pydantic accepts it: both limits are at least one. -/
structure Settings where
  anthropicApiKey : Str
  tavilyApiKey : Str
  langfusePublicKey : Option Str := none
  langfuseSecretKey : Option Str := none
  langfuseHost : Str := lit "https://cloud.langfuse.com"
  supervisorModel : Str := lit "claude-sonnet-5"
  workerModel : Str := lit "claude-haiku-4-5-20251001"
  maxSubQuestions : Nat := 5
  searchResultsPerQuery : Nat := 5
  maxSubQuestions_pos : 1 ≤ maxSubQuestions := by decide
  searchResultsPerQuery_pos : 1 ≤ searchResultsPerQuery := by decide

/-- The defaults, with the two required keys. -/
def keyedSettings : Settings := { anthropicApiKey := lit "key", tavilyApiKey := lit "key" }

end ResearchSynthesis
