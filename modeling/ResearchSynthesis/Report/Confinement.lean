-- SUMMARY: The lines of a report, and that scraped titles and URLs reach no line but their own bullet.
import ResearchSynthesis.Report.Document
import Mathlib.Data.List.Forall2

/-!
# Scraped data stays in its bullet

`Document.lines` lists the lines of a report, each of them either text that
scraped data has no part in or the bullet of one result. Two states that differ
in titles and URLs only have the same lines but for the bullets.
-/

namespace ResearchSynthesis
open Python Relator

/-! ## The lines of a report -/

/-- A line of the report: text without scraped data, or the bullet of a result. -/
inductive Line where
  | fixed (text : Str)
  | bullet (result : Dict)

/-- The result whose bullet the line is. -/
def Line.result? : Line → Option Dict
  | .fixed _ => none
  | .bullet r => some r

def sourceLines (results : List Dict) : List Line :=
  .fixed (lit "**Sources:**") :: results.map .bullet

/-- The lines of the report's last block. -/
def Block.lastLines : Block → List Line
  | .text s => s.splitlines.map .fixed
  | .sources results => sourceLines results

/-- The lines of a block with more to come after it. -/
def Block.lines : Block → List Line
  | .text s => (s ++ lit "\n").splitlines.map .fixed
  | .sources results => sourceLines results

def blockLines : List Block → List Line
  | [] => []
  | [b] => b.lastLines
  | b :: c :: bs => b.lines ++ .fixed [] :: blockLines (c :: bs)

def Document.lines (d : Document) : List Line := blockLines d.blocks

section
variable [UnicodeData]

def Line.text : Line → Str
  | .fixed s => s
  | .bullet r => formatSource r

/-- A source's bullet is one line, whatever its title and its URL. -/
theorem oneLine_formatSource (result : Dict) : (formatSource result).OneLine := by
  have htitle : (escapeLinkText (result.getStr "title" "(untitled)")).OneLine :=
    ((Str.oneLine_join_split _).replace (by decide)).replace (by decide)
  have hurl : (safeUrl (result.getStr "url" "")).OneLine := by
    simp only [safeUrl]
    split
    · exact fun c hc => by cases hc
    · exact ((Str.oneLine_join_nil_split _).replace (by decide)).replace (by decide)
  have hlit (s : String) (h : (lit s).OneLine) : (lit s).OneLine := h
  simp only [formatSource]
  split
  · exact ((((hlit "- [" (by decide)).append htitle).append (hlit "](" (by decide))).append
      hurl).append (hlit ")" (by decide))
  · exact (hlit "- " (by decide)).append htitle

theorem formatSource_ne_nil (result : Dict) : formatSource result ≠ [] := by
  simp only [formatSource]
  split <;> simp [lit]

theorem text_sourceLines (results : List Dict) :
    (sourceLines results).map Line.text = lit "**Sources:**" :: results.map formatSource := by
  simp [sourceLines, Line.text, Function.comp_def]

theorem oneLine_sourceLines {results : List Dict} :
    ∀ l ∈ lit "**Sources:**" :: results.map formatSource, l.OneLine ∧ l ≠ [] := by
  intro l hl
  rcases List.mem_cons.mp hl with rfl | hl
  · decide
  · obtain ⟨r, -, rfl⟩ := List.mem_map.mp hl
    exact ⟨oneLine_formatSource r, formatSource_ne_nil r⟩

theorem splitlines_lastBlock (b : Block) :
    b.render.splitlines = b.lastLines.map Line.text := by
  cases b with
  | text s => simp [Block.render, Block.lastLines, Line.text, Function.comp_def]
  | sources results =>
    rw [Block.render, Block.lastLines, text_sourceLines]
    exact Str.splitlines_join (fun l hl => (oneLine_sourceLines l hl).1)
      fun l hl => (oneLine_sourceLines l hl).2

theorem splitlines_block (b : Block) :
    (b.render ++ lit "\n").splitlines = b.lines.map Line.text := by
  cases b with
  | text s => simp [Block.render, Block.lines, Line.text, Function.comp_def]
  | sources results =>
    rw [Block.render, Block.lines, text_sourceLines]
    exact Str.splitlines_join_newline (fun l hl => (oneLine_sourceLines l hl).1) (by simp)

theorem splitlines_blocks (bs : List Block) :
    (Str.join (lit "\n\n") (bs.map Block.render)).splitlines = (blockLines bs).map Line.text := by
  induction bs with
  | nil => rfl
  | cons b bs ih =>
    cases bs with
    | nil =>
      rw [List.map_singleton, Str.join_singleton]
      exact splitlines_lastBlock b
    | cons c cs =>
      rw [List.map_cons, List.map_cons, Str.join_cons_cons, Str.splitlines_append_blank,
        ← List.map_cons, ih, splitlines_block]
      simp [blockLines, Line.text]

theorem splitlines_render (d : Document) : d.render.splitlines = d.lines.map Line.text :=
  splitlines_blocks d.blocks

end

/-! ## Only sources have bullets -/

theorem filterMap_result?_fixed (ls : List Str) :
    (ls.map Line.fixed).filterMap Line.result? = [] := by
  induction ls with
  | nil => rfl
  | cons l ls ih => exact ih

theorem filterMap_result?_sourceLines (results : List Dict) :
    (sourceLines results).filterMap Line.result? = results := by
  rw [sourceLines, List.filterMap_cons_none rfl]
  induction results with
  | nil => rfl
  | cons r rs ih => exact congrArg (r :: ·) ih

/-- The results a block shows. -/
def Block.results : Block → List Dict
  | .text _ => []
  | .sources results => results

theorem filterMap_result?_blockLines (bs : List Block) :
    (blockLines bs).filterMap Line.result? = bs.flatMap Block.results := by
  have hlast (b : Block) : b.lastLines.filterMap Line.result? = b.results := by
    cases b with
    | text s => exact filterMap_result?_fixed _
    | sources results => exact filterMap_result?_sourceLines results
  have hlines (b : Block) : b.lines.filterMap Line.result? = b.results := by
    cases b with
    | text s => exact filterMap_result?_fixed _
    | sources results => exact filterMap_result?_sourceLines results
  induction bs with
  | nil => rfl
  | cons b bs ih =>
    cases bs with
    | nil => simp [blockLines, hlast]
    | cons c cs =>
      rw [blockLines, List.filterMap_append, hlines, List.filterMap_cons_none rfl, ih]
      rfl

theorem Section.flatMap_results_blocks (s : Section) :
    s.blocks.flatMap Block.results = s.sources := by
  rw [Section.blocks]
  split
  · simp [Block.results]
  · simp_all [Block.results]

/-- The bullets of a report are those of its sections' sources, in order. -/
theorem filterMap_result?_lines (d : Document) :
    d.lines.filterMap Line.result? = d.sections.flatMap (·.sources) := by
  have htext (c : Prop) [Decidable c] (s : Str) :
      (if c then [[Block.text s]] else []).flatten.flatMap Block.results = [] := by
    split <;> rfl
  rw [Document.lines, filterMap_result?_blockLines, Document.blocks, Document.parts]
  simp only [List.flatten_append, List.flatMap_append, htext]
  simp [Block.results, ← List.flatMap_def, List.flatMap_assoc, Section.flatMap_results_blocks]

/-! ## States that differ in scraped data only -/

/-- The two dictionaries agree on every key but `title` and `url`. -/
def Dict.SameOffScraped (d d' : Dict) : Prop :=
  ∀ key, key ≠ lit "title" → key ≠ lit "url" → d.lookup key = d'.lookup key

structure SearchResult.SameOffScraped (r r' : SearchResult) : Prop where
  results : List.Forall₂ Dict.SameOffScraped r.results r'.results
  rest : r' = { r with results := r'.results }

/-- The two states agree on everything but the titles and URLs of results. -/
structure ResearchState.SameOffScraped (s s' : ResearchState) : Prop where
  searchResults : List.Forall₂ SearchResult.SameOffScraped s.searchResults s'.searchResults
  rest : s' = { s with searchResults := s'.searchResults }

/-- The same line, or the bullets of two results that differ in scraped data only. -/
inductive Line.SameOffScraped : Line → Line → Prop
  | fixed (text : Str) : SameOffScraped (.fixed text) (.fixed text)
  | bullet {r r' : Dict} (h : Dict.SameOffScraped r r') : SameOffScraped (.bullet r) (.bullet r')

inductive Block.SameOffScraped : Block → Block → Prop
  | text (s : Str) : SameOffScraped (.text s) (.text s)
  | sources {rs rs' : List Dict} (h : List.Forall₂ Dict.SameOffScraped rs rs') :
      SameOffScraped (.sources rs) (.sources rs')

theorem forall₂_fixed (ls : List Str) :
    List.Forall₂ Line.SameOffScraped (ls.map .fixed) (ls.map .fixed) := by
  induction ls with
  | nil => exact .nil
  | cons l ls ih => exact .cons (.fixed l) ih

theorem forall₂_sourceLines {rs rs' : List Dict} (h : List.Forall₂ Dict.SameOffScraped rs rs') :
    List.Forall₂ Line.SameOffScraped (sourceLines rs) (sourceLines rs') :=
  .cons (.fixed _) (List.rel_map (fun _ _ => .bullet) h)

theorem forall₂_blockLines {bs bs' : List Block} (h : List.Forall₂ Block.SameOffScraped bs bs') :
    List.Forall₂ Line.SameOffScraped (blockLines bs) (blockLines bs') := by
  induction h with
  | nil => exact .nil
  | cons hb hbs ih =>
    cases hbs with
    | nil =>
      cases hb with
      | text s => exact forall₂_fixed _
      | sources h => exact forall₂_sourceLines h
    | cons hc hcs =>
      refine List.rel_append ?_ (.cons (.fixed []) ih)
      cases hb with
      | text s => exact forall₂_fixed _
      | sources h => exact forall₂_sourceLines h

theorem forall₂_sourcesOf {rs rs' : List SearchResult}
    (h : List.Forall₂ SearchResult.SameOffScraped rs rs') (q : Str) :
    List.Forall₂ Dict.SameOffScraped (sourcesOf rs q) (sourcesOf rs' q) := by
  refine List.rel_flatMap (List.rel_filter (fun r r' hr => ?_) h) fun r r' hr => hr.results
  have hquestion : r'.subQuestion = r.subQuestion := by rw [hr.rest]
  simp [hquestion]

theorem forall₂_blocks (heading content : Str) {rs rs' : List Dict}
    (h : List.Forall₂ Dict.SameOffScraped rs rs') :
    List.Forall₂ Block.SameOffScraped (Section.mk heading content rs).blocks
      (Section.mk heading content rs').blocks := by
  refine .cons (.text _) (.cons (.text _) ?_)
  cases h with
  | nil => exact .nil
  | cons hr hrs => exact .cons (.sources (.cons hr hrs)) .nil

theorem ResearchState.SameOffScraped.lines {s s' : ResearchState} (h : s.SameOffScraped s') :
    List.Forall₂ Line.SameOffScraped s.document.lines s'.document.lines := by
  refine forall₂_blockLines ?_
  have hsections : List.Forall₂ (List.Forall₂ Block.SameOffScraped)
      (s.document.sections.map Section.blocks) (s'.document.sections.map Section.blocks) := by
    have hsummaries : s'.summaries = s.summaries := by rw [h.rest]
    simp only [ResearchState.document, hsummaries, List.map_map]
    refine List.rel_map (R := Eq) ?_ (List.forall₂_eq_eq_eq ▸ rfl)
    rintro summary _ rfl
    exact forall₂_blocks _ _ (forall₂_sourcesOf h.searchResults summary.subQuestion)
  have htext (c : Prop) [Decidable c] (s : Str) :
      List.Forall₂ (List.Forall₂ Block.SameOffScraped)
        (if c then [[.text s]] else []) (if c then [[.text s]] else []) := by
    split
    · exact .cons (.cons (.text s) .nil) .nil
    · exact .nil
  have hquestion : s'.question = s.question := by rw [h.rest]
  have hintro : s'.reportIntro = s.reportIntro := by rw [h.rest]
  have hconclusion : s'.reportConclusion = s.reportConclusion := by rw [h.rest]
  have hcosts : s'.costLog = s.costLog := by rw [h.rest]
  simp only [Document.blocks, Document.parts]
  refine List.rel_flatten (List.rel_append (List.rel_append (List.rel_append
    (List.rel_append ?_ ?_) hsections) ?_) ?_) <;>
    simp only [ResearchState.document, hquestion, hintro, hconclusion, hcosts]
  · exact .cons (.cons (.text _) .nil) .nil
  · exact htext _ _
  · exact htext _ _
  · exact htext _ _

variable [UnicodeData]

/-- Titles and URLs reach no line of the report but the bullets of their own
    results: the rest of the report has the same lines, in the same places. They are
    values that `str` can print, as `Json.repr` assumes. -/
theorem reportText_confined {s s' : ResearchState} (h : s.SameOffScraped s') :
    (reportText s).splitlines.length = (reportText s').splitlines.length ∧
      (reportText s).splitlines = s.document.lines.map Line.text ∧
      (reportText s').splitlines = s'.document.lines.map Line.text ∧
      List.Forall₂ Line.SameOffScraped s.document.lines s'.document.lines ∧
      s.document.lines.filterMap Line.result? = s.document.sections.flatMap (·.sources) := by
  have hs : (reportText s).splitlines = s.document.lines.map Line.text := by
    rw [reportText_eq_render, splitlines_render]
  have hs' : (reportText s').splitlines = s'.document.lines.map Line.text := by
    rw [reportText_eq_render, splitlines_render]
  refine ⟨?_, hs, hs', h.lines, filterMap_result?_lines _⟩
  rw [hs, hs', List.length_map, List.length_map, h.lines.length_eq]

/-- A state with one section and, under it, one source of the given title. -/
def oneSource (title : String) : ResearchState :=
  { question := some (lit "question")
    searchResults :=
      [⟨lit "sub-question", [[(lit "title", .string (lit title))]], lit "searcher_0", none⟩]
    summaries := [⟨lit "sub-question", lit "summary", 0, lit "model", 0⟩] }

omit [UnicodeData] in
theorem oneSource_sameOffScraped (t t' : String) : (oneSource t).SameOffScraped (oneSource t') := by
  refine ⟨.cons ⟨.cons (fun key htitle _ => ?_) .nil, rfl⟩ .nil, rfl⟩
  rw [lookup_cons_eq_ite, lookup_cons_eq_ite, if_neg (Ne.symm htitle), if_neg (Ne.symm htitle)]

omit [UnicodeData] in
/-- A heading in a title adds no line to the report. -/
theorem reportText_confined_heading :
    (@reportText .basicLatin (oneSource "title")).splitlines.length =
        (@reportText .basicLatin (oneSource "\n\n## Conclusion\n\ntitle")).splitlines.length ∧
      (@reportText .basicLatin (oneSource "title")).splitlines =
        (oneSource "title").document.lines.map (@Line.text .basicLatin) ∧
      (@reportText .basicLatin (oneSource "\n\n## Conclusion\n\ntitle")).splitlines =
        (oneSource "\n\n## Conclusion\n\ntitle").document.lines.map (@Line.text .basicLatin) ∧
      List.Forall₂ Line.SameOffScraped (oneSource "title").document.lines
        (oneSource "\n\n## Conclusion\n\ntitle").document.lines ∧
      (oneSource "title").document.lines.filterMap Line.result? =
        (oneSource "title").document.sections.flatMap (·.sources) :=
  @reportText_confined .basicLatin _ _ (oneSource_sameOffScraped _ _)

end ResearchSynthesis
