-- SUMMARY: When `run_research` saves what the graph returned: exactly when no lone surrogate reaches the report.
import ResearchSynthesis.Graph.Ledger
import ResearchSynthesis.Main.Naming
import ResearchSynthesis.Main.Saving
import ResearchSynthesis.Report.Encoding

/-!
# Saving what the graph returned

Python strings may hold lone surrogates, which a `\u` escape in a search result
or in a model's answer can carry, and strict UTF-8 refuses them. Nothing between
the scraped page and `write_text` removes them.
-/

namespace ResearchSynthesis
open Python StateGraph

variable [UnicodeData]

/-! ## Storable states -/

/-- No text that the reporter shows holds a lone surrogate, the question apart. -/
structure Storable (s : ResearchState) : Prop where
  introduction : (s.reportIntro.getD []).Encodable
  conclusion : (s.reportConclusion.getD []).Encodable
  summaries : ∀ m ∈ s.summaries, m.subQuestion.Encodable ∧ m.content.Encodable
  sources : ∀ sr ∈ s.searchResults, ∀ r ∈ sr.results, EncodableSource r

section
variable {w : World} {question : Str}

theorem Completion.encodable_costs (k : Completion w question) :
    ∀ e ∈ k.reporterState.document.costs, e.node.Encodable ∧ e.model.Encodable := by
  intro e he
  obtain ⟨node, model, tokens, hentry⟩ := k.entryOf he
  obtain ⟨prices, hprices, -⟩ := hentry.cost
  have hmodels : ∀ entry ∈ modelCosts, entry.1.Encodable := by
    simp [modelCosts]
  obtain ⟨before, after, hsplit, -⟩ := List.lookup_eq_some_iff.mp hprices
  refine ⟨hentry.node ▸ Str.encodable_lit node, hmodels (e.model, prices) ?_⟩
  rw [hsplit]
  simp

/-- In a completed run, every search result is shown under some summary. -/
theorem Completion.encodable_document (k : Completion w question) (hquestion : question.Encodable) :
    k.reporterState.document.Encodable ↔ Storable k.state := by
  constructor
  · rintro ⟨-, hintro, hsections, hconclusion⟩
    refine ⟨hintro, hconclusion, fun m hm => ?_, fun sr hsr r hr => ?_⟩
    · have hsection := hsections _ (List.mem_map_of_mem hm)
      exact ⟨hsection.heading, hsection.content⟩
    · obtain ⟨x, hx, rfl⟩ := List.mem_map.mp hsr
      have hsection := hsections _ (List.mem_map_of_mem (List.mem_map_of_mem hx))
      exact hsection.sources r (mem_sourcesOf.mpr
        ⟨x.2.searchResult, List.mem_map_of_mem hx, x.2.same.symm, hr⟩)
  · rintro ⟨hintro, hconclusion, hsummaries, hsources⟩
    refine ⟨hquestion, hintro, fun s hs => ?_, hconclusion⟩
    obtain ⟨m, hm, rfl⟩ := List.mem_map.mp hs
    refine ⟨(hsummaries m hm).1, (hsummaries m hm).2, fun r hr => ?_⟩
    obtain ⟨sr, hsr, -, hmem⟩ := mem_sourcesOf.mp hr
    exact hsources sr hsr r hmem

theorem Completion.encodable_report (k : Completion w question) (hquestion : question.Encodable) :
    (savedReport k.state).Encodable ↔ Storable k.state := by
  rw [← k.encodable_document hquestion]
  exact Document.encodable_render k.encodable_costs

end

/-! ## Saved runs -/

/-- The report's name leads to a file inside the outputs directory, and not to
    the cost document. -/
def Writable (question : Str) (now : DateTime) (outputsDir costDoc : Path) (disk : Disk Exn) :
    Prop :=
  ∃ base path, disk.resolve outputsDir = .ok base ∧
    disk.resolve (base ++ [reportName question now]) = .ok path ∧
    path.isRelativeTo base ∧ path ≠ costDoc

/-- The run returns, its report's file decodes to the final report, and the cost
    document has one more row. -/
def Saved (call : ResearchCall) (final : ResearchState) (outputsDir costDoc : Path)
    (disk : Disk Exn) : Prop :=
  ∃ path after, runResearch call outputsDir costDoc disk = (.ok (path, final), after) ∧
    (∃ b, after.files path = some b ∧ Str.decode b = final.finalReport) ∧
    ∃ row line, after.files costDoc = some (disk.content costDoc ++ row) ∧
      Str.decode row = some (line ++ lit "\n") ∧ line.OneLine

theorem writable_iff {question : Str} {now : DateTime} {outputsDir costDoc : Path}
    {disk : Disk Exn} :
    Writable question now outputsDir costDoc disk ↔
      ∃ path, buildOutputPath question now outputsDir disk = .ok path ∧ path ≠ costDoc := by
  simp only [Writable, buildOutputPath_eq_ok_iff]
  constructor
  · rintro ⟨base, path, hbase, hpath, hinside, hne⟩
    exact ⟨path, ⟨base, hbase, hpath, hinside⟩, hne⟩
  · rintro ⟨path, ⟨base, hbase, hpath, hinside⟩, hne⟩
    exact ⟨base, path, hbase, hpath, hinside, hne⟩

section
variable {call : ResearchCall} {final : ResearchState} {outputsDir costDoc : Path}
variable {disk : Disk Exn}

theorem saved_of_storable (hinvoke : call.ainvoke call.question recursionLimit = .ok final)
    (hreportFile : call.reportFile = .accepts) (hcostFile : call.costFile = .accepts)
    (hquestion : call.question.Encodable) (hreport : (savedReport final).Encodable)
    (hfinal : final.finalReport = some (savedReport final))
    (hwritable : Writable call.question call.now outputsDir costDoc disk) :
    Saved call final outputsDir costDoc disk := by
  obtain ⟨path, hpath, hne⟩ := writable_iff.mp hwritable
  obtain ⟨b, row, hb, hrow, hrun⟩ := runResearch_of_encodable hinvoke hpath hreportFile hcostFile
    hquestion hreport
  refine ⟨path, _, hrun, ⟨b, ?_, ?_⟩, row, (call.costRow final).line, ?_, ?_, ?_⟩
  · simp [hne]
  · rw [hfinal, Str.decode_encode hb]
  · simp [Disk.content, Ne.symm hne]
  · rw [← CostRow.text_eq_line, Str.decode_encode hrow]
  · exact CostRow.oneLine_line call.now.oneLine_date

/-- A report that went to the cost document has the row behind it. -/
theorem writable_of_saved (h : Saved call final outputsDir costDoc disk)
    (hfinal : final.finalReport = some (savedReport final)) :
    (savedReport final).Encodable ∧ Writable call.question call.now outputsDir costDoc disk := by
  obtain ⟨path, after, hrun, ⟨b, hfile, hdecode⟩, -⟩ := h
  have houtcome := runResearch_outcome call outputsDir costDoc disk
  rw [hrun] at houtcome
  obtain ⟨-, hpath, b', row, hb', hrow, hafter⟩ := houtcome.saved_of_ok rfl
  refine ⟨Str.exists_encode_iff.mp ⟨b', hb'⟩, writable_iff.mpr ⟨path, hpath, ?_⟩⟩
  rintro rfl
  have hbytes : b = b' ++ row := by
    rw [show after = _ from hafter] at hfile
    simpa [Disk.content] using hfile.symm
  have htext := Str.decode_encode (Str.encode_append hb' hrow)
  rw [hbytes, htext, hfinal, Option.some.injEq, List.append_right_eq_self] at hdecode
  exact CostRow.text_ne_nil _ hdecode

end

/-- A run of the graph on an encodable question, with a file system that accepts
    every open and every write, is saved exactly when no scraped text and no text
    of a model that the report shows holds a lone surrogate, and the report has a
    file of its own to go to. -/
theorem run_saved_iff {w : World} {question : Str} {limit : Nat} {c : RunConfig}
    (hreach : Reaches (buildGraph w) ResearchState.schema limit
      (init (buildGraph w) { question := some question }) c) (hdone : c.Done)
    (hquestion : question.Encodable) {call : ResearchCall} (hcall : call.question = question)
    (hinvoke : call.ainvoke question recursionLimit = .ok c.state)
    (hreportFile : call.reportFile = .accepts) (hcostFile : call.costFile = .accepts)
    (outputsDir costDoc : Path) (disk : Disk Exn) :
    Saved call c.state outputsDir costDoc disk ↔
      Storable c.state ∧ Writable question call.now outputsDir costDoc disk := by
  obtain ⟨k, hstate, -⟩ := exists_completion hreach hdone
  subst hcall
  rw [hstate] at hinvoke ⊢
  rw [← k.encodable_report hquestion]
  constructor
  · intro h
    exact writable_of_saved h rfl
  · rintro ⟨hreport, hwritable⟩
    exact saved_of_storable hinvoke hreportFile hcostFile hquestion hreport rfl hwritable

/-! ## One page under two titles -/

omit [UnicodeData] in
/-- The sunny world, with the one page found under `title`. -/
def titledWorld (title : Str) : World :=
  { sunnyWorld with
    branch := fun i =>
      { tavily := fun _ _ => .ok
          [(lit "results", .list [.dict [(lit "title", .string title)]])]
        haiku := (sunnyWorld.branch i).haiku } }

theorem sound_titledWorld (title question : Str) : (titledWorld title).Sound question where
  models := validateModels_of_default rfl rfl
  decomposes := ⟨_, ⟨_, rfl, rfl⟩, ⟨⟨_, rfl⟩, fun _ _ => ⟨_, rfl⟩, ⟨_, rfl⟩⟩⟩

theorem encodableSource_title (title : Str) :
    EncodableSource [(lit "title", .string title)] ↔ title.Encodable := by
  have hshown : EncodableSource [(lit "title", .string title)] ↔
      title.Encodable ∧ (isHttp (compactUrl []) → Str.Encodable []) := Iff.rfl
  rw [hshown]
  exact and_iff_left fun _ => Str.encodable_nil

section
variable {title question : Str} (k : Completion (titledWorld title) question)

theorem subQuestions_titledWorld :
    k.decomposed.subQuestions = [lit "first", lit "second", lit "third"] := by
  have hdecomposes : (titledWorld title).Decomposes question
      ⟨[lit "first", lit "second", lit "third"], lit "intent", by decide, by decide⟩ :=
    ⟨_, rfl, rfl⟩
  rw [k.world_decomposes.unique hdecomposes]

theorem assembled_titledWorld :
    k.assembled = ⟨lit "introduction", lit "conclusion"⟩ :=
  (runAssemble_eq_ok_iff.mp k.assembles).1

variable {k} {x : Payload × BranchUpdate}

theorem results_titledWorld (hx : x ∈ k.branches) :
    x.2.searchResult.results = [[(lit "title", .string title)]] := by
  rw [(k.joined.researched x hx).searchResult]
  rfl

theorem content_titledWorld (hx : x ∈ k.branches) : x.2.summary.content = lit "summary" := by
  rcases runSummarize_eq_ok_iff.mp (k.joined.researched x hx).summarized with
    ⟨hempty, -⟩ | ⟨exc, -, hinvoke, -⟩ | ⟨response, entry, -, hinvoke, -, heq⟩
  · rw [results_titledWorld hx] at hempty
    cases hempty
  · cases hinvoke
  · cases hinvoke
    rw [(Summarized.mk.inj heq).1]
    rfl

theorem storable_titledWorld : Storable k.state ↔ title.Encodable := by
  constructor
  · intro h
    obtain ⟨x, hx⟩ := List.exists_mem_of_ne_nil _ k.branches_ne_nil
    have hsource := h.sources _ (List.mem_map_of_mem hx) [(lit "title", .string title)]
      (by simp [results_titledWorld hx])
    exact (encodableSource_title title).mp hsource
  · intro h
    have hquestions : ∀ q ∈ k.decomposed.subQuestions, q.Encodable := by
      rw [subQuestions_titledWorld]
      decide
    have hassembled := assembled_titledWorld k
    refine ⟨?_, ?_, fun m hm => ?_, fun sr hsr r hr => ?_⟩
    · change k.assembled.executiveSummary.Encodable
      rw [hassembled]
      exact Str.encodable_lit "introduction"
    · change k.assembled.conclusion.Encodable
      rw [hassembled]
      exact Str.encodable_lit "conclusion"
    · obtain ⟨x, hx, rfl⟩ := List.mem_map.mp hm
      refine ⟨hquestions _ (List.mem_of_mem_take (k.subQuestion_branches.subset
        (List.mem_map_of_mem hx))), ?_⟩
      rw [content_titledWorld hx]
      exact Str.encodable_lit "summary"
    · obtain ⟨x, hx, rfl⟩ := List.mem_map.mp hsr
      rw [results_titledWorld hx, List.mem_singleton] at hr
      rw [hr]
      exact (encodableSource_title title).mpr h

end

omit [UnicodeData] in
theorem writable_emptyDisk (question : Str) (now : DateTime) :
    @Writable .basicLatin question now [lit "outputs"] [lit "cost-breakdown.md"] emptyDisk :=
  ⟨_, _, rfl, rfl, List.isPrefixOf_iff_prefix.mpr (List.prefix_append _ _), by simp⟩

omit [UnicodeData] in
theorem run_saved_page :
    ∃ final, @Saved .basicLatin (answeredCall (lit "question") final .accepts) final
      [lit "outputs"] [lit "cost-breakdown.md"] emptyDisk := by
  obtain ⟨c, hreach, hdone⟩ := @exists_done_of_reaches .basicLatin (titledWorld (lit "page"))
    (lit "question") (@sound_titledWorld .basicLatin _ _) recursionLimit (by decide) _ .refl
  obtain ⟨k, hstate, -⟩ := @exists_completion .basicLatin _ _ _ _ hreach hdone
  have hstorable : @Storable .basicLatin c.state := by
    rw [hstate]
    exact (@storable_titledWorld .basicLatin _ _ k).mpr (by decide)
  exact ⟨c.state, (@run_saved_iff .basicLatin _ _ _ c hreach hdone (by decide)
    (answeredCall (lit "question") c.state .accepts) rfl rfl rfl rfl _ _ _).mpr
    ⟨hstorable, @writable_emptyDisk _ _⟩⟩

omit [UnicodeData] in
/-- A title with a lone surrogate takes the run down after every paid call. -/
theorem not_saved_surrogate_title :
    ∃ c, Reaches (@buildGraph .basicLatin (titledWorld [.surrogate 0])) ResearchState.schema
        recursionLimit (init (@buildGraph .basicLatin (titledWorld [.surrogate 0]))
          { question := some (lit "question") }) c ∧ c.Done ∧
      ¬ @Saved .basicLatin (answeredCall (lit "question") c.state .accepts) c.state
        [lit "outputs"] [lit "cost-breakdown.md"] emptyDisk := by
  obtain ⟨c, hreach, hdone⟩ := @exists_done_of_reaches .basicLatin (titledWorld [.surrogate 0])
    (lit "question") (@sound_titledWorld .basicLatin _ _) recursionLimit (by decide) _ .refl
  refine ⟨c, hreach, hdone, fun h => ?_⟩
  obtain ⟨k, hstate, -⟩ := @exists_completion .basicLatin _ _ _ _ hreach hdone
  rw [hstate] at h
  have hreport := (@writable_of_saved .basicLatin _ _ _ _ _ h rfl).1
  rw [@Completion.encodable_report .basicLatin _ _ k (by decide),
    @storable_titledWorld .basicLatin] at hreport
  revert hreport
  decide

end ResearchSynthesis
