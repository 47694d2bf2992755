-- SUMMARY: A completed run as one value: what each node returned, and the final state that follows from it.
import ResearchSynthesis.Graph.Run
import ResearchSynthesis.Report.Document

/-! # Completed runs -/

namespace ResearchSynthesis
open Python StateGraph

variable [UnicodeData]

/-- What the nodes of a completed run returned, the branches in the order in
    which they finished. -/
structure Completion (w : World) (question : Str) where
  decomposed : DecomposedQuestion
  decomposeEntry : CostEntry
  branches : List (Payload × BranchUpdate)
  assembled : AssembledReport
  assembleEntry : CostEntry
  decomposes : (runDecompose question w.settings.supervisorModel w.decomposeCall).outcome =
    .ok (decomposed, decomposeEntry)
  joined : Joined w decomposed.subQuestions branches
  assembles : (runAssemble question (branches.map (·.2.summary)) w.settings.supervisorModel
    w.assembleCall).outcome = .ok (assembled, assembleEntry)

namespace Completion

variable {w : World} {question : Str} (k : Completion w question)

/-- The state that the reporter read. -/
def reporterState : ResearchState where
  question := some question
  subQuestions := some k.decomposed.subQuestions
  searchResults := k.branches.map (·.2.searchResult)
  summaries := k.branches.map (·.2.summary)
  reportIntro := some k.assembled.executiveSummary
  reportConclusion := some k.assembled.conclusion
  costLog := [k.decomposeEntry] ++ k.branches.filterMap (·.2.entry) ++ [k.assembleEntry]

/-- The final state. -/
def state : ResearchState :=
  { k.reporterState with finalReport := some k.reporterState.document.render }

def executed : List (Task Node Payload) :=
  [nodeTask .decompose] ++ branchTasks k.branches ++ [nodeTask .assemble, nodeTask .reporter]

theorem length_branches :
    k.branches.length = min k.decomposed.subQuestions.length w.settings.maxSubQuestions := by
  rw [← length_payloads, ← k.joined.perm.length_eq, List.length_map]

theorem branches_ne_nil : k.branches ≠ [] := by
  have := k.length_branches
  have := k.decomposed.length_ge
  have := w.settings.maxSubQuestions_pos
  apply List.ne_nil_of_length_pos
  omega

theorem subQuestion_branches :
    (k.branches.map (·.2.summary.subQuestion)).Perm
      (k.decomposed.subQuestions.take w.settings.maxSubQuestions) := by
  have hown : k.branches.map (·.2.summary.subQuestion) = k.branches.map (·.1.subQuestion) :=
    List.map_congr_left fun x hx => x.2.same.trans (k.joined.researched x hx).subQuestion
  rw [hown, ← subQuestion_payloads]
  simpa [Function.comp_def] using k.joined.perm.map (·.subQuestion)

end Completion

/-- Nodes that all return, one after the other, make a completion. -/
theorem exists_completion_of_nodes {w : World} {question : Str} {ud ua : Update} {qs : List Str}
    {bs : List (Payload × BranchUpdate)}
    (hdecompose : (decomposeNode w.settings w.decomposeCall
      { question := some question }).outcome = .ok ud)
    (hqs : ud.subQuestions = some qs) (hjoined : Joined w qs bs)
    (hassemble : (assembleNode w.settings w.assembleCall
      (joinedState (({ question := some question } : ResearchState).apply ud) bs)).outcome = .ok ua) :
    ∃ k : Completion w question,
      k.decomposed.subQuestions = qs ∧ k.branches = bs ∧
      (((joinedState (({ question := some question } : ResearchState).apply ud) bs).apply ua).apply
        (reporterNode
          ((joinedState (({ question := some question } : ResearchState).apply ud) bs).apply ua))) =
        k.state := by
  obtain ⟨q, hq, -, ⟨decomposed, decomposeEntry⟩, hdecomposed, rfl⟩ :=
    decomposeNode_eq_ok_iff.mp hdecompose
  cases hq
  cases hqs
  obtain ⟨q, hq, -, ⟨report, assembleEntry⟩, hreport, rfl⟩ := assembleNode_eq_ok_iff.mp hassemble
  rw [apply_assembled, apply_reporterNode, reportText_eq_render]
  rw [joinedState, appendBranches_eq] at hq hreport ⊢
  cases hq
  refine ⟨⟨decomposed, decomposeEntry, bs, report, assembleEntry, hdecomposed, hjoined, ?_⟩,
    rfl, rfl, ?_⟩
  · simpa [ResearchState.apply, Function.comp_def] using hreport
  · simp [Completion.state, Completion.reporterState, ResearchState.apply,
      ResearchState.document, Function.comp_def, List.filterMap_map]

/-- A run that is over has a completion, whatever the order of its branches. -/
theorem exists_completion {w : World} {question : Str} {limit : Nat} {c : RunConfig}
    (h : Reaches (buildGraph w) ResearchState.schema limit
      (init (buildGraph w) { question := some question }) c) (hdone : c.Done) :
    ∃ k : Completion w question,
      c.state = k.state ∧ c.executed = k.executed ∧ c.supersteps = 4 := by
  obtain ⟨ud, qs, bs, ua, hdecompose, hqs, hjoined, hassemble, rfl⟩ := completed_of_done h hdone
  obtain ⟨k, -, rfl, hstate⟩ := exists_completion_of_nodes hdecompose hqs hjoined hassemble
  exact ⟨k, hstate, rfl, rfl⟩

end ResearchSynthesis
