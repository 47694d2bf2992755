-- SUMMARY: What one research branch adds to the state, as a value of its own, and that the branch node returns just that.
import ResearchSynthesis.Graph

/-!
# Branch updates

A branch adds one search result, one summary of the same sub-question and at
most one cost entry. `appendBranches` appends such updates in some order;
`researchNode` returns nothing else.
-/

namespace ResearchSynthesis
open Python StateGraph

/-- What a branch adds: a search result, its summary, and the summary's cost. -/
structure BranchUpdate where
  searchResult : SearchResult
  summary : Summary
  entry : Option CostEntry
  same : summary.subQuestion = searchResult.subQuestion

namespace BranchUpdate

def subQuestion (b : BranchUpdate) : Str := b.searchResult.subQuestion

/-- The partial update that carries it. -/
def update (b : BranchUpdate) : Update :=
  { searchResults := some [b.searchResult]
    summaries := some [b.summary]
    costLog := b.entry.map ([·]) }

/-- A branch writes reducer channels and no other. -/
theorem isReducer_of_mem_keys {b : BranchUpdate} {k : Channel} (h : k ∈ b.update.keys) :
    k.isReducer := by
  have hhas : b.update.has k := (List.mem_filter.mp h).2
  cases k <;> first | rfl | cases hhas

end BranchUpdate

/-- Append the updates of branches, in the order in which they come. -/
def ResearchState.appendBranches (s : ResearchState) (bs : List BranchUpdate) : ResearchState :=
  (bs.map BranchUpdate.update).foldl ResearchState.apply s

theorem appendBranches_eq (s : ResearchState) (bs : List BranchUpdate) :
    s.appendBranches bs =
      { s with
        searchResults := s.searchResults ++ bs.map (·.searchResult)
        summaries := s.summaries ++ bs.map (·.summary)
        costLog := s.costLog ++ bs.filterMap (·.entry) } := by
  induction bs generalizing s with
  | nil => simp [ResearchState.appendBranches]
  | cons b bs ih =>
    have hstep : s.appendBranches (b :: bs) = (s.apply b.update).appendBranches bs := rfl
    rw [hstep, ih]
    cases hentry : b.entry <;> simp [ResearchState.apply, BranchUpdate.update, hentry]

/-! ## The branch node -/

variable [UnicodeData]

/-- `b` is what the branch, with the world as it is around it, comes to. -/
structure Researched (settings : Settings) (branch : Branch) (payload : Payload)
    (b : BranchUpdate) : Prop where
  searchResult : b.searchResult = searchResultOf payload branch.tavily
  summarized : (runSummarize b.searchResult settings.workerModel branch.haiku).outcome =
    .ok ⟨b.summary, b.entry⟩

theorem Researched.subQuestion {settings : Settings} {branch : Branch} {payload : Payload}
    {b : BranchUpdate} (h : Researched settings branch payload b) :
    b.searchResult.subQuestion = payload.subQuestion := by
  rw [h.searchResult]
  rfl

theorem Researched.nodeId {settings : Settings} {branch : Branch} {payload : Payload}
    {b : BranchUpdate} (h : Researched settings branch payload b) :
    b.searchResult.nodeId = lit "searcher_" ++ natStr payload.index := by
  rw [h.searchResult]
  rfl

theorem runSummarize_subQuestion {searchResult : SearchResult} {modelName : Str}
    {call : LlmCall AIMessage} {x : Summarized}
    (h : (runSummarize searchResult modelName call).outcome = .ok x) :
    x.summary.subQuestion = searchResult.subQuestion := by
  rcases runSummarize_eq_ok_iff.mp h with ⟨-, rfl⟩ | ⟨_, -, -, rfl⟩ | ⟨_, _, -, -, -, rfl⟩ <;> rfl

/-- A branch makes its clients and summarizes what its search came to. -/
theorem outcome_researchNode (settings : Settings) (branch : Branch) (payload : Payload) :
    (researchNode settings branch payload).outcome = do
      let _ ← branch.clients settings
      let result := searchResultOf payload branch.tavily
      let summarized ← (runSummarize result settings.workerModel branch.haiku).outcome
      return ({ searchResults := some [result] } : Update).merge summarized.update := by
  rw [researchNode, Calling.outcome_bind, outcome_searcherNode, Branch.clients]
  cases branch.tavilyClient settings.tavilyApiKey with
  | error e => rfl
  | ok _ =>
    change (summarizerNode settings (searchResultOf payload branch.tavily) branch.haiku >>= _ :
      Calling Update).outcome = _
    rw [Calling.outcome_bind, outcome_summarizerNode]
    cases hsetup : branch.haiku.setup settings settings.workerModel summarizerMaxTokens with
    | error e => rfl
    | ok config =>
      simp only [bind, Except.bind]
      cases (runSummarize (searchResultOf payload branch.tavily) settings.workerModel
        branch.haiku).outcome <;> rfl

/-- The branch node returns a branch update, if its clients can be made and its
    summarizer can price the call. -/
theorem researchNode_eq_ok_iff {settings : Settings} {branch : Branch} {payload : Payload}
    {u : Update} :
    (researchNode settings branch payload).outcome = .ok u ↔
      (∃ config, branch.clients settings = .ok config) ∧
        ∃ b, Researched settings branch payload b ∧ u = b.update := by
  simp only [outcome_researchNode, bind_eq_ok_iff]
  constructor
  · rintro ⟨config, hconfig, x, hx, hu⟩
    cases hu
    refine ⟨⟨config, hconfig⟩,
      ⟨searchResultOf payload branch.tavily, x.summary, x.entry, runSummarize_subQuestion hx⟩,
      ⟨rfl, hx⟩, ?_⟩
    cases hentry : x.entry <;>
      simp [BranchUpdate.update, Update.merge, Summarized.update, hentry]
  · rintro ⟨⟨config, hconfig⟩, b, ⟨hsearch, hx⟩, rfl⟩
    rw [hsearch] at hx
    refine ⟨config, hconfig, _, hx, congrArg Except.ok ?_⟩
    cases hentry : b.entry <;>
      simp [BranchUpdate.update, Update.merge, Summarized.update, hentry, hsearch]

end ResearchSynthesis
