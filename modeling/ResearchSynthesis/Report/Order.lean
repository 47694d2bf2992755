-- SUMMARY: The order in which branches finish shows in the report only as the order of its parts.
import ResearchSynthesis.Graph.Branch
import ResearchSynthesis.Report.Document

/-!
# Order of the branches

Two states to which the same branch updates were appended in different orders
describe documents that are the same up to the order of sections and cost rows,
and of the sources under a sub-question that several branches share.
-/

namespace ResearchSynthesis
open Python

/-! ## Documents up to the order of their parts -/

/-- The same section, its sources in another order perhaps. -/
structure Section.SameUpToOrder (s s' : Section) : Prop where
  heading : s.heading = s'.heading
  content : s.content = s'.content
  sources : s.sources.Perm s'.sources

/-- The same document, its sections and cost rows in another order perhaps.
    Sources may have changed places only under a heading that is not `single`. -/
structure Document.SameUpToOrder (single : Str → Prop) (d d' : Document) : Prop where
  question : d.question = d'.question
  introduction : d.introduction = d'.introduction
  conclusion : d.conclusion = d'.conclusion
  rows : (d.costs.map formatCostRow).Perm (d'.costs.map formatCostRow)
  total : totalCost d.costs = totalCost d'.costs
  length : d.sections.length = d'.sections.length
  sections : ∃ ss, ss.Perm d'.sections ∧ List.Forall₂
    (fun s s' => s.SameUpToOrder s' ∧ (single s.heading → s = s')) d.sections ss

/-- Where every heading is `single` the sections are the same to the letter. -/
theorem Document.SameUpToOrder.perm_sections {single : Str → Prop} {d d' : Document}
    (h : d.SameUpToOrder single d') (hsingle : ∀ s ∈ d.sections, single s.heading) :
    d.sections.Perm d'.sections := by
  obtain ⟨ss, hperm, hforall⟩ := h.sections
  have heq : d.sections = ss := by
    rw [← List.forall₂_eq_eq_eq]
    exact ((List.forall₂_and_left _ _).mpr ⟨hsingle, hforall⟩).imp fun s s' hs => hs.2.2 hs.1
  rw [heq]
  exact hperm

/-! ## Sources in another order -/

theorem sourcesOf_append (rs rs' : List SearchResult) (q : Str) :
    sourcesOf (rs ++ rs') q = sourcesOf rs q ++ sourcesOf rs' q := by
  simp [sourcesOf]

theorem sourcesOf_perm {rs rs' : List SearchResult} (h : rs.Perm rs') (q : Str) :
    (sourcesOf rs q).Perm (sourcesOf rs' q) :=
  (h.filter _).flatMap_right _

/-- A sub-question of one search result at most has its sources in one order. -/
theorem sourcesOf_eq_of_perm {rs rs' : List SearchResult} (h : rs.Perm rs') {q : Str}
    (hq : (rs.map (·.subQuestion)).count q ≤ 1) : sourcesOf rs q = sourcesOf rs' q := by
  have hlength : (rs.filter (·.subQuestion = q)).length ≤ 1 := by
    rw [List.count, List.countP_map, List.countP_eq_length_filter] at hq
    simpa [Function.comp_def, beq_eq_decide] using hq
  have hperm := h.filter (·.subQuestion = q)
  have hfilter : rs.filter (·.subQuestion = q) = rs'.filter (·.subQuestion = q) := by
    rcases hrs : rs.filter (·.subQuestion = q) with _ | ⟨r, _ | ⟨r', rest⟩⟩
    · rw [hrs] at hperm ⊢
      exact (List.nil_perm.mp hperm).symm
    · rw [hrs] at hperm ⊢
      exact List.singleton_perm.mp hperm
    · simp [hrs] at hlength
  rw [sourcesOf, sourcesOf, hfilter]

/-! ## Two orders of the same updates -/

/-- The document of a state to which branches were appended, and then the
    update of a later node. -/
theorem document_appendBranches (s : ResearchState) (after : Update) (bs : List BranchUpdate) :
    let results := s.searchResults ++ bs.map (·.searchResult) ++ after.searchResults.getD []
    ((s.appendBranches bs).apply after).document =
      { question := (after.question <|> s.question).getD []
        introduction := (after.reportIntro <|> s.reportIntro).getD []
        sections := (s.summaries ++ bs.map (·.summary) ++ after.summaries.getD []).map
          (sectionOf results)
        conclusion := (after.reportConclusion <|> s.reportConclusion).getD []
        costs := s.costLog ++ bs.filterMap (·.entry) ++ after.costLog.getD [] } := by
  rw [appendBranches_eq]
  rfl

theorem document_sameUpToOrder (s : ResearchState) (after : Update) {bs bs' : List BranchUpdate}
    (h : bs.Perm bs') :
    Document.SameUpToOrder (fun q => (bs.map (·.subQuestion)).count q ≤ 1)
      ((s.appendBranches bs).apply after).document
      ((s.appendBranches bs').apply after).document := by
  rw [document_appendBranches, document_appendBranches]
  have hcosts : (s.costLog ++ bs.filterMap (·.entry) ++ after.costLog.getD []).Perm
      (s.costLog ++ bs'.filterMap (·.entry) ++ after.costLog.getD []) :=
    ((h.filterMap _).append_left _).append_right _
  have hsummaries : (s.summaries ++ bs.map (·.summary) ++ after.summaries.getD []).Perm
      (s.summaries ++ bs'.map (·.summary) ++ after.summaries.getD []) :=
    ((h.map _).append_left _).append_right _
  refine ⟨rfl, rfl, rfl, hcosts.map _, (hcosts.map _).sum_eq, ?_, ?_⟩
  · simpa using hsummaries.length_eq
  · refine ⟨_, hsummaries.map _, ?_⟩
    rw [List.forall₂_map_left_iff, List.forall₂_map_right_iff, List.forall₂_same]
    intro summary _
    have hresults := h.map (·.searchResult)
    refine ⟨⟨rfl, rfl, sourcesOf_perm ((hresults.append_left _).append_right _) _⟩, fun hsingle => ?_⟩
    have hsources := sourcesOf_eq_of_perm hresults (q := summary.subQuestion)
      (by simpa [sectionOf, Function.comp_def, BranchUpdate.subQuestion] using hsingle)
    simp only [sectionOf, sourcesOf_append, hsources]

variable [UnicodeData]

/-- The reports of two orders of the branches have the same title, summary,
    conclusion and total, the same cost rows in some order and as many sections.
    Sections differ only in the order of the bullets of a sub-question that
    several branches share; if none is shared, the sections are the same. -/
theorem reportText_order (s : ResearchState) (after : Update) {bs bs' : List BranchUpdate}
    (h : bs.Perm bs') :
    let d := ((s.appendBranches bs).apply after).document
    let d' := ((s.appendBranches bs').apply after).document
    reportText ((s.appendBranches bs).apply after) = d.render ∧
      reportText ((s.appendBranches bs').apply after) = d'.render ∧
      d.SameUpToOrder (fun q => (bs.map (·.subQuestion)).count q ≤ 1) d' ∧
      ((bs.map (·.subQuestion)).Nodup →
        (d.sections.map Section.render).Perm (d'.sections.map Section.render)) := by
  intro d d'
  have hsame := document_sameUpToOrder s after h
  exact ⟨reportText_eq_render _, reportText_eq_render _, hsame, fun hnodup =>
    (hsame.perm_sections fun _ _ => List.nodup_iff_count_le_one.mp hnodup _).map _⟩

/-- A branch on the given sub-question that found one source. -/
def oneSourceBranch (q title : String) : BranchUpdate where
  searchResult :=
    { subQuestion := lit q
      results := [[(lit "title", .string (lit title))]]
      nodeId := lit "searcher_0" }
  summary := { subQuestion := lit q, content := lit "", tokensUsed := 0, model := [], costUsd := 0 }
  entry := none
  same := rfl

omit [UnicodeData] in
/-- Two branches on different sub-questions finish in either order. -/
theorem reportText_order_two_branches :
    let d := ((({} : ResearchState).appendBranches
      [oneSourceBranch "a" "x", oneSourceBranch "b" "y"]).apply {}).document
    let d' := ((({} : ResearchState).appendBranches
      [oneSourceBranch "b" "y", oneSourceBranch "a" "x"]).apply {}).document
    (d.sections.map (@Section.render .basicLatin)).Perm
      (d'.sections.map (@Section.render .basicLatin)) :=
  (@reportText_order .basicLatin {} {} _ _ (.swap _ _ _)).2.2.2 (by decide)

end ResearchSynthesis
