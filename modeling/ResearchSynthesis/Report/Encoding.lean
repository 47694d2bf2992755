-- SUMMARY: When a report can be encoded: which of the texts that went into it must be free of lone surrogates.
import ResearchSynthesis.Report.Document

/-!
# Encoding a report

The reporter collapses whitespace, escapes and drops, but no step of it touches
a lone surrogate. So the report can be encoded exactly when every text that it
shows can.
-/

namespace ResearchSynthesis
open Python

variable [UnicodeData]

/-! ## Normalised text -/

omit [UnicodeData] in
theorem encodable_oneline (text : Str) : (oneline text).Encodable ↔ text.Encodable :=
  Str.encodable_join_split (Str.encodable_lit _) text

omit [UnicodeData] in
theorem encodable_escapeLinkText (text : Str) :
    (escapeLinkText text).Encodable ↔ text.Encodable := by
  rw [escapeLinkText, Str.encodable_replace rfl (Str.encodable_lit _),
    Str.encodable_replace rfl (Str.encodable_lit _), encodable_oneline]

/-- A URL that is not an HTTP one does not get into the report. -/
theorem encodable_safeUrl (url : Str) :
    (safeUrl url).Encodable ↔ (isHttp (compactUrl url) → url.Encodable) := by
  rw [safeUrl]
  by_cases hhttp : isHttp (compactUrl url)
  · rw [if_neg (by simpa using hhttp), Str.encodable_replace rfl (Str.encodable_lit _),
      Str.encodable_replace rfl (Str.encodable_lit _)]
    have hcompact : (compactUrl url).Encodable ↔ url.Encodable :=
      Str.encodable_join_split Str.encodable_nil url
    rw [hcompact]
    exact ⟨fun h _ => h, fun h => h hhttp⟩
  · rw [if_pos (by simpa using hhttp)]
    simp [hhttp]

/-! ## Blocks -/

/-- The title and the URL of a result can be encoded, as far as they are shown. -/
def EncodableSource (result : Dict) : Prop :=
  (result.getStr "title" "(untitled)").Encodable ∧
    (isHttp (compactUrl (result.getStr "url" "")) → (result.getStr "url" "").Encodable)

theorem encodable_formatSource (result : Dict) :
    (formatSource result).Encodable ↔ EncodableSource result := by
  rw [EncodableSource, ← encodable_safeUrl]
  simp only [formatSource]
  split
  · simp [encodable_escapeLinkText]
  · next hurl => simp [encodable_escapeLinkText, not_not.mp hurl]

theorem encodable_sources (results : List Dict) :
    (Block.sources results).render.Encodable ↔ ∀ r ∈ results, EncodableSource r := by
  simp [Block.render, Str.encodable_join, encodable_formatSource]

omit [UnicodeData] in
theorem encodable_formatCostRow {entry : CostEntry} (hnode : entry.node.Encodable)
    (hmodel : entry.model.Encodable) : (formatCostRow entry).Encodable := by
  simp [formatCostRow, intStr, hnode, hmodel, encodable_formatFixed]

omit [UnicodeData] in
theorem encodable_formatCostTable {costLog : List CostEntry}
    (h : ∀ e ∈ costLog, e.node.Encodable ∧ e.model.Encodable) :
    (formatCostTable costLog).Encodable := by
  rw [formatCostTable, Str.encodable_join (Str.encodable_lit _)]
  intro row hrow
  simp only [List.mem_append, List.mem_cons, List.not_mem_nil, or_false, List.mem_map] at hrow
  rcases hrow with (hhead | ⟨e, he, rfl⟩) | rfl | rfl
  · rcases hhead with rfl | rfl | rfl | rfl <;> exact Str.encodable_lit _
  · exact encodable_formatCostRow (h e he).1 (h e he).2
  · exact Str.encodable_lit _
  · simp [formatTotal, encodable_formatFixed]

/-! ## Documents -/

/-- Every text that the section shows can be encoded. -/
structure Section.Encodable (s : Section) : Prop where
  heading : s.heading.Encodable
  content : s.content.Encodable
  sources : ∀ r ∈ s.sources, EncodableSource r

theorem Section.encodable_blocks (s : Section) :
    (∀ b ∈ s.blocks, b.render.Encodable) ↔ s.Encodable := by
  rw [blocks]
  constructor
  · intro h
    have hheading := h (.text (lit "## " ++ oneline s.heading)) (by simp)
    have hcontent := h (.text s.content) (by simp)
    simp only [Block.render, Str.encodable_append, encodable_oneline] at hheading
    refine ⟨hheading.2, hcontent, fun r hr => ?_⟩
    have hsources := h (.sources s.sources) (by simp [List.ne_nil_of_mem hr])
    exact (encodable_sources s.sources).mp hsources r hr
  · rintro ⟨hheading, hcontent, hsources⟩ b hb
    simp only [List.mem_append, List.mem_cons, List.not_mem_nil, or_false] at hb
    rcases hb with (rfl | rfl) | hb
    · simpa [Block.render, encodable_oneline] using hheading
    · exact hcontent
    · split at hb
      · rw [List.mem_singleton.mp hb]
        exact (encodable_sources s.sources).mpr hsources
      · cases hb

/-- Every text that the document shows can be encoded. -/
structure Document.Encodable (d : Document) : Prop where
  question : d.question.Encodable
  introduction : d.introduction.Encodable
  sections : ∀ s ∈ d.sections, s.Encodable
  conclusion : d.conclusion.Encodable

/-- An optional part: its heading, and `text` if there is any. -/
theorem encodable_optional {heading : Str} (text : Str) (hheading : heading.Encodable) :
    (∀ p ∈ (if text ≠ [] then [[Block.text (heading ++ text)]] else []),
      ∀ b ∈ p, b.render.Encodable) ↔ text.Encodable := by
  by_cases htext : text = []
  · simp [htext]
  · simp [htext, Block.render, hheading]

theorem encodable_costs {costs : List CostEntry}
    (h : ∀ e ∈ costs, e.node.Encodable ∧ e.model.Encodable) :
    ∀ p ∈ (if costs ≠ [] then [[Block.text (formatCostTable costs)]] else []),
      ∀ b ∈ p, b.render.Encodable := by
  have htable := encodable_formatCostTable h
  by_cases hempty : costs = []
  · simp [hempty]
  · simpa [hempty, Block.render] using htable

theorem Document.encodable_parts (d : Document) :
    d.render.Encodable ↔ ∀ p ∈ d.parts, ∀ b ∈ p, b.render.Encodable := by
  rw [render, Str.encodable_join (Str.encodable_lit _), blocks]
  simp only [List.mem_map, List.mem_flatten]
  constructor
  · intro h p hp b hb
    exact h _ ⟨b, ⟨p, hp, hb⟩, rfl⟩
  · rintro h _ ⟨b, ⟨p, hp, hb⟩, rfl⟩
    exact h p hp b hb

theorem Document.encodable_render {d : Document}
    (hcosts : ∀ e ∈ d.costs, e.node.Encodable ∧ e.model.Encodable) :
    d.render.Encodable ↔ d.Encodable := by
  rw [d.encodable_parts]
  simp only [parts, List.forall_mem_append, encodable_optional _ (Str.encodable_lit _)]
  constructor
  · rintro ⟨⟨⟨⟨htitle, hintro⟩, hsections⟩, hconclusion⟩, -⟩
    refine ⟨?_, hintro, fun s hs => ?_, hconclusion⟩
    · simpa [Block.render, encodable_oneline] using htitle
    · exact s.encodable_blocks.mp (hsections _ (List.mem_map_of_mem hs))
  · rintro ⟨htitle, hintro, hsections, hconclusion⟩
    refine ⟨⟨⟨⟨?_, hintro⟩, ?_⟩, hconclusion⟩, encodable_costs hcosts⟩
    · simpa [Block.render, encodable_oneline] using htitle
    · rintro p hp
      obtain ⟨s, hs, rfl⟩ := List.mem_map.mp hp
      exact s.encodable_blocks.mpr (hsections s hs)

end ResearchSynthesis
