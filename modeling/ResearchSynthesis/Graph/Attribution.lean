-- SUMMARY: Every source stands under the sub-question it was found for, and none is lost.
import ResearchSynthesis.Graph.Degradation

/-!
# Attribution of sources

Search results and summaries travel in two lists and meet again in the reporter,
which looks sources up by sub-question. `Attributed` says what comes out.
-/

namespace ResearchSynthesis
open Python StateGraph

/-! ## Sources of one sub-question -/

/-- Where no sub-question repeats, its sources are those of its one search result. -/
theorem sourcesOf_eq_results {rs : List SearchResult} (h : (rs.map (·.subQuestion)).Nodup)
    {r : SearchResult} (hr : r ∈ rs) : sourcesOf rs r.subQuestion = r.results := by
  have hfilter : rs.filter (·.subQuestion = r.subQuestion) = [r] := by
    induction rs with
    | nil => cases hr
    | cons x rs ih =>
      rw [List.map_cons, List.nodup_cons] at h
      rcases List.mem_cons.mp hr with rfl | hr
      · have hrest : rs.filter (·.subQuestion = r.subQuestion) = [] := by
          rw [List.filter_eq_nil_iff]
          intro y hy heq
          exact h.1 (List.mem_map.mpr ⟨y, hy, by simpa using heq⟩)
        rw [List.filter_cons_of_pos (by simp), hrest]
      · have hne : x.subQuestion ≠ r.subQuestion := fun heq =>
          h.1 (List.mem_map.mpr ⟨r, hr, heq.symm⟩)
        rw [List.filter_cons_of_neg (by simpa using hne), ih h.2 hr]
  rw [sourcesOf, hfilter, List.flatMap_singleton]

variable [UnicodeData]

/-! ## Attribution -/

/-- The final state `s` of a run whose branches were `bs`, on sub-questions `qs`:
    one section per branch, in the order of the summaries, with the results of
    exactly those search results whose sub-question is the section's. -/
structure Attributed (w : World) (qs : List Str) (bs : List (Payload × BranchUpdate))
    (s : ResearchState) : Prop where
  joined : Joined w qs bs
  summaries : s.summaries = bs.map (·.2.summary)
  searchResults : s.searchResults = bs.map (·.2.searchResult)
  report : s.finalReport = some s.document.render
  sections : s.document.sections = s.summaries.map fun summary =>
    { heading := summary.subQuestion
      content := summary.content
      sources := (s.searchResults.filter (·.subQuestion = summary.subQuestion)).flatMap (·.results) }
  /-- Distinct sub-questions: the bullets are the results in the branch's prompt. -/
  prompted : (qs.take w.settings.maxSubQuestions).Nodup → ∀ x ∈ bs,
    let summarized :=
      runSummarize x.2.searchResult w.settings.workerModel (w.branch x.1.index).haiku
    summarized.outcome = .ok ⟨x.2.summary, x.2.entry⟩ ∧
      (sectionOf s.searchResults x.2.summary).sources = x.2.searchResult.results ∧
      summarized.prompts = if x.2.searchResult.results = [] then []
        else [buildMessages x.1.subQuestion (sectionOf s.searchResults x.2.summary).sources]
  /-- Whatever a branch's searcher kept stands under the branch's sub-question. -/
  kept : ∀ p ∈ payloads w.settings qs,
    ∀ d ∈ (runTavilySearch p.subQuestion (w.branch p.index).tavily).results,
      ∃ section_ ∈ s.document.sections, section_.heading = p.subQuestion ∧ d ∈ section_.sources

theorem Completion.attributed {w : World} {question : Str} (k : Completion w question) :
    Attributed w k.decomposed.subQuestions k.branches k.state where
  joined := k.joined
  summaries := rfl
  searchResults := rfl
  report := rfl
  sections := rfl
  prompted := by
    intro hnodup x hx summarized
    have hresearched := k.joined.researched x hx
    have hsources : (sectionOf k.state.searchResults x.2.summary).sources =
        x.2.searchResult.results := by
      have hdistinct : (k.state.searchResults.map (·.subQuestion)).Nodup := by
        rw [← k.subQuestion_branches.nodup_iff] at hnodup
        simpa [state, reporterState, Function.comp_def, BranchUpdate.same] using hnodup
      rw [sectionOf, x.2.same]
      exact sourcesOf_eq_results hdistinct (List.mem_map_of_mem hx)
    refine ⟨hresearched.summarized, hsources, ?_⟩
    rw [hsources, ← hresearched.subQuestion]
    exact prompts_runSummarize _ _ _
  kept := by
    intro p hp d hd
    obtain ⟨x, hx, rfl⟩ := List.mem_map.mp (k.joined.perm.mem_iff.mpr hp)
    have hresearched := k.joined.researched x hx
    refine ⟨sectionOf k.state.searchResults x.2.summary,
      List.mem_map_of_mem (List.mem_map_of_mem hx), x.2.same.trans hresearched.subQuestion, ?_⟩
    refine mem_sourcesOf.mpr ⟨x.2.searchResult, List.mem_map_of_mem hx, x.2.same.symm, ?_⟩
    rw [hresearched.searchResult]
    exact hd

/-- In every run that reaches its end, each section of the report has the sources
    found for its own sub-question, and every source found has a section. -/
theorem sources_attributed (w : World) (question : Str) {limit : Nat} {c : RunConfig}
    (hreach : Reaches (buildGraph w) ResearchState.schema limit
      (init (buildGraph w) { question := some question }) c) (hdone : c.Done) :
    ∃ qs bs, c.state.subQuestions = some qs ∧ Attributed w qs bs c.state := by
  obtain ⟨k, hstate, -⟩ := exists_completion hreach hdone
  rw [hstate]
  exact ⟨_, _, rfl, k.attributed⟩

omit [UnicodeData] in
theorem sources_attributed_sunnyWorld :
    ∃ (s : ResearchState) (qs : List Str) (bs : List (Payload × BranchUpdate)),
      s.subQuestions = some qs ∧ @Attributed .basicLatin sunnyWorld qs bs s := by
  obtain ⟨c, hreach, hdone⟩ := @exists_done_of_reaches .basicLatin sunnyWorld (lit "question")
    (@sound_sunnyWorld .basicLatin _) recursionLimit (by decide) _ .refl
  exact ⟨c.state, @sources_attributed .basicLatin sunnyWorld (lit "question") _ c hreach hdone⟩

end ResearchSynthesis
