-- SUMMARY: The report as a document (title, sections with their sources, costs), and the lines its text splits into.
import ResearchSynthesis.Report
import ResearchSynthesis.Python.Lines

/-!
# The report as a document

What the report says, apart from how it is written out: a section for every
summary, with the results of the search results recorded under the section's
own sub-question. `reportText_eq_render` says that the reporter writes this
document, `splitlines_render` what its lines are.
-/

namespace ResearchSynthesis
open Python

/-! ## Documents -/

/-- One sub-question's section; the heading is the sub-question as it is. -/
structure Section where
  heading : Str
  content : Str
  sources : List Dict

structure Document where
  question : Str
  introduction : Str
  sections : List Section
  conclusion : Str
  costs : List CostEntry

/-- The results that search results recorded under `q`, one after another. -/
def sourcesOf (searchResults : List SearchResult) (q : Str) : List Dict :=
  (searchResults.filter (·.subQuestion = q)).flatMap (·.results)

theorem mem_sourcesOf {rs : List SearchResult} {q : Str} {d : Dict} :
    d ∈ sourcesOf rs q ↔ ∃ r ∈ rs, r.subQuestion = q ∧ d ∈ r.results := by
  simp [sourcesOf, and_assoc]

/-- The section of one summary. -/
def sectionOf (searchResults : List SearchResult) (summary : Summary) : Section where
  heading := summary.subQuestion
  content := summary.content
  sources := sourcesOf searchResults summary.subQuestion

/-- The document that a state describes. -/
def ResearchState.document (state : ResearchState) : Document where
  question := state.question.getD []
  introduction := state.reportIntro.getD []
  sections := state.summaries.map (sectionOf state.searchResults)
  conclusion := state.reportConclusion.getD []
  costs := state.costLog

/-- A piece of the report between two blank lines. -/
inductive Block where
  | text (s : Str)
  | sources (results : List Dict)

def Section.blocks (s : Section) : List Block :=
  [.text (lit "## " ++ oneline s.heading), .text s.content] ++
    if s.sources ≠ [] then [.sources s.sources] else []

/-- The document's parts, block by block. -/
def Document.parts (d : Document) : List (List Block) :=
  [[.text (lit "# Research Report: " ++ oneline d.question)]] ++
    (if d.introduction ≠ [] then [[.text (lit "## Executive Summary\n\n" ++ d.introduction)]]
      else []) ++
    d.sections.map Section.blocks ++
    (if d.conclusion ≠ [] then [[.text (lit "## Conclusion\n\n" ++ d.conclusion)]] else []) ++
    (if d.costs ≠ [] then [[.text (formatCostTable d.costs)]] else [])

def Document.blocks (d : Document) : List Block := d.parts.flatten

variable [UnicodeData]

def Block.render : Block → Str
  | .text s => s
  | .sources results => Str.join (lit "\n") (lit "**Sources:**" :: results.map formatSource)

def Section.render (s : Section) : Str := Str.join (lit "\n\n") (s.blocks.map Block.render)

def Document.render (d : Document) : Str := Str.join (lit "\n\n") (d.blocks.map Block.render)

/-! ## The reporter writes the document -/

omit [UnicodeData] in
theorem sourcesOf_eq (searchResults : List SearchResult) (q : Str) :
    ((sourcesByQuestion searchResults).lookup q).getD [] = sourcesOf searchResults q :=
  lookup_sourcesByQuestion searchResults q

theorem render_sources_ne_nil (results : List Dict) : (Block.sources results).render ≠ [] := by
  cases results <;> simp [Block.render, lit]

theorem formatSection_eq_render (searchResults : List SearchResult) (summary : Summary) :
    formatSection (sourcesByQuestion searchResults) summary =
      (sectionOf searchResults summary).render := by
  rw [formatSection, sourcesOf_eq, Section.render, Section.blocks, sectionOf]
  cases sourcesOf searchResults summary.subQuestion with
  | nil => rfl
  | cons r rs =>
    have hsources : formatSources (r :: rs) = (Block.sources (r :: rs)).render := rfl
    rw [hsources, if_pos (render_sources_ne_nil _), if_pos (by simp)]
    rfl

omit [UnicodeData] in
theorem Section.blocks_ne_nil (s : Section) : s.blocks ≠ [] := by simp [Section.blocks]

omit [UnicodeData] in
theorem Document.ne_nil_of_mem_parts {d : Document} {p : List Block} (hp : p ∈ d.parts) :
    p ≠ [] := by
  simp only [parts, List.mem_append, List.mem_map] at hp
  rcases hp with (((hp | hp) | ⟨s, -, rfl⟩) | hp) | hp
  · rw [List.mem_singleton.mp hp]
    simp
  · split at hp <;> simp_all
  · exact s.blocks_ne_nil
  · split at hp <;> simp_all
  · split at hp <;> simp_all

/-- The text of the report is the rendering of the state's document. -/
theorem reportText_eq_render (state : ResearchState) :
    reportText state = state.document.render := by
  have htext : reportText state = Str.join (lit "\n\n")
      (state.document.parts.map fun p => Str.join (lit "\n\n") (p.map Block.render)) := by
    have hsections : state.summaries.map (formatSection (sourcesByQuestion state.searchResults)) =
        state.document.sections.map Section.render := by
      simp [ResearchState.document, formatSection_eq_render]
    rw [reportText, hsections]
    simp only [Document.parts, List.map_append, List.map_map, apply_ite (List.map _),
      List.map_cons, List.map_nil, Str.join_singleton, Block.render]
    rfl
  have hparts : ∀ p ∈ state.document.parts.map (List.map Block.render), p ≠ [] := by
    intro p hp
    obtain ⟨bs, hbs, rfl⟩ := List.mem_map.mp hp
    simpa using Document.ne_nil_of_mem_parts hbs
  rw [htext, Document.render, Document.blocks, List.map_flatten, ← Str.join_map_join hparts,
    List.map_map]
  rfl

end ResearchSynthesis
