-- SUMMARY: The source list as citations: one bullet a result, and when each of them has a label that shows.
import ResearchSynthesis.Report.Links
import ResearchSynthesis.Report.Confinement
import ResearchSynthesis.Python.Words

/-!
# Citations

The fallback label `(untitled)` is what `get` returns for a missing key. A title
that is there and is `null` or blank takes another way: it is stringified and
collapsed, to `None` or to nothing.
-/

namespace ResearchSynthesis
open Python CommonMark

/-- Some character of the string is no whitespace. -/
def Visible (s : Str) : Prop := ∃ c ∈ s, c.isSpace = false

theorem split_eq_nil_of_not_visible {s : Str} (h : ¬ Visible s) : s.split = [] := by
  refine List.eq_nil_iff_forall_not_mem.mpr fun w hw => h ?_
  obtain ⟨c, w, rfl⟩ := List.exists_cons_of_ne_nil (Str.ne_nil_of_mem_split hw)
  exact ⟨c, Str.mem_split_iff.mp ⟨_, hw, by simp⟩⟩

/-- A label shows exactly when the text it is made from does. -/
theorem visible_escapeLinkText (text : Str) : Visible (escapeLinkText text) ↔ Visible text := by
  rw [escapeLinkText_eq, oneline]
  constructor
  · intro h
    by_contra hblank
    obtain ⟨c, hc, -⟩ := h
    simp [split_eq_nil_of_not_visible hblank, escapeBrackets] at hc
  · rintro ⟨c, hc, hspace⟩
    obtain ⟨w, hw, hmem⟩ := Str.mem_split_iff.mpr ⟨hc, hspace⟩
    exact ⟨c, mem_escapeBrackets_of_mem (Str.mem_join_of_mem hw hmem), hspace⟩

variable [UnicodeData]

/-- The result has a title that is neither `null` nor blank. -/
def HasTitle (result : Dict) : Prop :=
  ∃ v, result.get "title" = some v ∧ v ≠ .null ∧ Visible v.str

/-- The line is the bullet of the result: its label shows, and is `(untitled)`
    where the result has no title. -/
def Cites (result : Dict) (line : Str) : Prop :=
  ∃ label,
    (line = if safeUrl (result.getStr "url" "") = [] then lit "- " ++ label
      else lit "- [" ++ label ++ lit "](" ++ safeUrl (result.getStr "url" "") ++ lit ")") ∧
    Visible label ∧ (¬ HasTitle result → label = lit "(untitled)")

/-- The source list is its header and then one citing bullet a result, in order. -/
def SourcesCited (results : List Dict) : Prop :=
  results ≠ [] → ∃ bullets, (formatSources results).splitlines = lit "**Sources:**" :: bullets ∧
    List.Forall₂ Cites results bullets

/-! ## One bullet -/

theorem cites_formatSource_iff (result : Dict) : Cites result (formatSource result) ↔
    Visible (result.getStr "title" "(untitled)") ∧
      (¬ HasTitle result →
        escapeLinkText (result.getStr "title" "(untitled)") = lit "(untitled)") := by
  have hform : formatSource result =
      if safeUrl (result.getStr "url" "") = [] then
        lit "- " ++ escapeLinkText (result.getStr "title" "(untitled)")
      else lit "- [" ++ escapeLinkText (result.getStr "title" "(untitled)") ++ lit "](" ++
        safeUrl (result.getStr "url" "") ++ lit ")" := by
    rw [formatSource]
    split <;> simp_all
  rw [← visible_escapeLinkText]
  constructor
  · rintro ⟨label, hline, hvisible, huntitled⟩
    obtain rfl : escapeLinkText (result.getStr "title" "(untitled)") = label := by
      rw [hform] at hline
      split at hline
      · exact List.append_cancel_left hline
      · simpa using hline
    exact ⟨hvisible, huntitled⟩
  · rintro ⟨hvisible, huntitled⟩
    exact ⟨_, hform, hvisible, huntitled⟩

/-- A bullet cites its result if the title is missing, or there and visible. -/
theorem cites_iff (result : Dict) : Cites result (formatSource result) ↔
    result.get "title" = none ∨ HasTitle result := by
  have huntitled : escapeLinkText (lit "(untitled)") = lit "(untitled)" := by decide
  have hnone : escapeLinkText (lit "None") ≠ lit "(untitled)" := by decide
  rw [cites_formatSource_iff]
  cases hget : result.get "title" with
  | none =>
    have htext : result.getStr "title" "(untitled)" = lit "(untitled)" := by
      simp [Dict.getStr, hget]
    rw [htext]
    exact iff_of_true ⟨⟨.scalar '(', by decide, by decide⟩, fun _ => huntitled⟩ (.inl rfl)
  | some v =>
    have htext : result.getStr "title" "(untitled)" = v.str := by simp [Dict.getStr, hget]
    have htitle : HasTitle result ↔ v ≠ .null ∧ Visible v.str := by simp [HasTitle, hget]
    rw [htext, htitle]
    constructor
    · rintro ⟨hvisible, hlabel⟩
      refine .inr ⟨?_, hvisible⟩
      rintro rfl
      exact hnone (hlabel fun h => h.1 rfl)
    · rintro (h | ⟨hnull, hvisible⟩)
      · cases h
      · exact ⟨hvisible, fun h => absurd ⟨hnull, hvisible⟩ h⟩

/-! ## The list -/

theorem splitlines_formatSources {results : List Dict} (h : results ≠ []) :
    (formatSources results).splitlines = lit "**Sources:**" :: results.map formatSource := by
  rw [formatSources, if_neg (by simpa using h)]
  exact Str.splitlines_join (fun l hl => (oneLine_sourceLines l hl).1)
    fun l hl => (oneLine_sourceLines l hl).2

/-- The source list cites every result exactly when no title is `null` or blank. -/
theorem sourcesCited_iff (results : List Dict) : SourcesCited results ↔
    ∀ result ∈ results, result.get "title" = none ∨ HasTitle result := by
  have hall : List.Forall₂ Cites results (results.map formatSource) ↔
      ∀ result ∈ results, result.get "title" = none ∨ HasTitle result := by
    rw [List.forall₂_map_right_iff, List.forall₂_same]
    exact forall₂_congr fun result _ => cites_iff result
  rw [← hall]
  by_cases hempty : results = []
  · rw [hempty]
    exact iff_of_true (fun h => absurd rfl h) .nil
  · have hlines := splitlines_formatSources hempty
    constructor
    · intro h
      obtain ⟨bullets, hsplit, hcites⟩ := h hempty
      obtain rfl := (List.cons.inj (hlines.symm.trans hsplit)).2
      exact hcites
    · exact fun h _ => ⟨_, hlines, h⟩

omit [UnicodeData] in
/-- An empty title leaves a link without text. -/
theorem not_sourcesCited_empty_title :
    ¬ @SourcesCited .basicLatin
      [[(lit "title", .string []), (lit "url", .string (lit "https://a.example"))]] := by
  rw [@sourcesCited_iff .basicLatin]
  intro h
  rcases h _ (List.mem_singleton.mpr rfl) with h | ⟨v, hv, -, c, hc, -⟩
  · cases h
  · cases hv
    cases hc

end ResearchSynthesis
