-- SUMMARY: What a history of calls leaves, read back from the disk: one record a saved run, and reports that agree with their records.
import ResearchSynthesis.Main.History
import ResearchSynthesis.Observability.Reading
import ResearchSynthesis.Report.Reading
import Mathlib.Data.List.ReduceOption

/-!
# Reading a history back

After a run there are two texts, the report and a row of the cost document.
`report_audited` reads the run's costs out of the first, `calls_recorded` the
runs out of the second, and `artifacts_agree` compares the two.
-/

namespace ResearchSynthesis
open Python StateGraph

variable [UnicodeData]

/-! ## Auditing a report -/

theorem EntryOf.logged {node model : Str} {tokens : Int × Int} {e : CostEntry}
    (h : EntryOf node model tokens e) (hnode : node ∈ agentNodes) : Logged e := by
  obtain ⟨prices, hprices, hcost⟩ := h.cost
  exact ⟨h.node ▸ hnode, logLlmCall_eq_ok_iff.mpr
    ⟨_, calculateCost_eq_ok_iff.mpr ⟨prices, hprices, hcost⟩, rfl⟩⟩

section
variable {w : World} {question : Str} (k : Completion w question)

/-- Every entry of a run was logged by one of the agents. -/
theorem Completion.logged : ∀ e ∈ k.state.costLog, Logged e := by
  intro e he
  simp only [state, reporterState, List.mem_append, List.mem_singleton] at he
  rcases he with (rfl | he) | rfl
  · obtain ⟨result, -, -, hlog⟩ := runDecompose_eq_ok_iff.mp k.decomposes
    exact (entryOf_of_logLlmCall hlog).logged (by decide)
  · obtain ⟨x, hx, hentry⟩ := List.mem_filterMap.mp he
    have hrel := (k.accounted hx).entry
    rw [hentry] at hrel
    generalize w.haikuResponse x.1 = response at hrel
    cases hrel with
    | some h => exact h.logged (by decide)
  · obtain ⟨-, hlog⟩ := runAssemble_eq_ok_iff.mp k.assembles
    exact (entryOf_of_logLlmCall hlog).logged (by decide)

/-- What the report alone says about its run: what it reads as, that the prices
    are those of the table, and that they add up. -/
structure Audited (report : Str) (figures : List Figures) (total : ℚ) : Prop where
  reads : readRunCost report = some (figures, total)
  priced : ∀ f ∈ figures, calculateCost f.model f.inputTokens f.outputTokens = .ok f.costUsd
  adds : (figures.map (·.costUsd)).sum = total

theorem Completion.audited : Audited k.reporterState.document.render
    (k.state.costLog.map CostEntry.figures) (totalCost k.state.costLog) := by
  have hne : k.reporterState.document.costs ≠ [] :=
    List.append_ne_nil_of_right_ne_nil _ (List.cons_ne_nil _ _)
  refine ⟨Document.readRunCost_render hne k.logged, fun f hf => ?_, ?_⟩
  · obtain ⟨e, he, rfl⟩ := List.mem_map.mp hf
    obtain ⟨prices, hprices, hcost⟩ := (k.logged e he).priced
    exact calculateCost_eq_ok_iff.mpr ⟨prices, hprices, hcost⟩
  · rw [List.map_map]
    rfl

end

/-- Whatever the sections of a report hold, every call that a run paid for can be
    read out of the report, with its tokens and its exact cost. -/
theorem report_audited (w : World) (question : Str) {limit : Nat} {c : RunConfig}
    (hreach : Reaches (buildGraph w) ResearchState.schema limit
      (init (buildGraph w) { question := some question }) c) (hdone : c.Done) :
    ∃ report, c.state.finalReport = some report ∧
      Audited report (c.state.costLog.map CostEntry.figures) (totalCost c.state.costLog) := by
  obtain ⟨k, hstate, -⟩ := exists_completion hreach hdone
  rw [hstate]
  exact ⟨_, rfl, k.audited⟩

omit [UnicodeData] in
theorem report_audited_sunnyWorld :
    ∃ (c : RunConfig) (report : Str),
      Reaches (@buildGraph .basicLatin sunnyWorld) ResearchState.schema recursionLimit
        (init (@buildGraph .basicLatin sunnyWorld) { question := some (lit "question") }) c ∧
      c.Done ∧ c.state.finalReport = some report ∧
      @Audited .basicLatin report (c.state.costLog.map CostEntry.figures)
        (totalCost c.state.costLog) := by
  obtain ⟨c, hreach, hdone⟩ := @exists_done_of_reaches .basicLatin sunnyWorld (lit "question")
    (@sound_sunnyWorld .basicLatin _) recursionLimit (by decide) _ .refl
  obtain ⟨report, hreport, haudited⟩ :=
    @report_audited .basicLatin sunnyWorld (lit "question") _ c hreach hdone
  exact ⟨c, report, hreach, hdone, hreport, haudited⟩

/-! ## The rows of a history -/

section
variable {call : ResearchCall} {outputsDir costDoc : Path} {disk : Disk Exn}

/-- A run that is not torn adds its whole row to the cost document, or nothing. -/
theorem runResearch_content_costDoc
    (hpath : buildOutputPath call.question call.now outputsDir disk ≠ .ok costDoc)
    (hwhole : ∀ kept e, call.costFile ≠ .failsWrite kept e) :
    (runResearch call outputsDir costDoc disk).2.content costDoc = disk.content costDoc ∨
      ∃ final b, call.ainvoke call.question recursionLimit = .ok final ∧
        (call.costRow final).text.encode = some b ∧
        (runResearch call outputsDir costDoc disk).2.content costDoc =
          disk.content costDoc ++ b := by
  unfold runResearch
  cases hinvoke : call.ainvoke call.question recursionLimit with
  | error e => exact .inl rfl
  | ok final =>
    cases hbuilt : buildOutputPath call.question call.now outputsDir disk with
    | error e => exact .inl rfl
    | ok path =>
      have hne : costDoc ≠ path := by
        rintro rfl
        exact hpath hbuilt
      have hkept := disk.writeAfter_files_of_ne [] (savedReport final) unicodeEncodeError
        call.reportFile hne
      dsimp only
      cases hreport : disk.writeText path (savedReport final) unicodeEncodeError call.reportFile with
      | mk written d =>
        have hcontent : d.content costDoc = disk.content costDoc := by
          unfold Disk.writeText at hreport
          rw [hreport] at hkept
          exact congrArg (Option.getD · []) hkept
        cases written with
        | error e => exact .inl hcontent
        | ok _ =>
          have happend := d.appendText_content costDoc (call.costRow final).text unicodeEncodeError
            hwhole
          rw [hcontent] at happend
          dsimp only [writeCostRow]
          cases hrow : d.appendText costDoc (call.costRow final).text unicodeEncodeError
              call.costFile with
          | mk appended after =>
            rw [hrow] at happend
            cases appended <;>
              exact happend.imp_right fun ⟨b, hb, hafter⟩ => ⟨final, b, rfl, hb, hafter⟩

end

/-- The row that `main` passes to the cost document for a run that ended in `final`. -/
def Invocation.costRow (i : Invocation) (settings : Settings) (final : ResearchState) : CostRow :=
  (i.researchCall settings fun _ _ => .ok final).costRow final

/-- What a call writes to the cost document: nothing, or the row of a complete run
    of its own, and never nothing if the report is printed. -/
structure Invocation.Wrote (i : Invocation) (o : MainOutcome) (row : Option CostRow) : Prop where
  own : ∀ x ∈ row, ∃ settings, ∃ k : Completion (i.world settings) (questionFromArgv i.argv),
    i.Starts settings ∧ x = i.costRow settings k.state
  printed : ∀ report, o.printed = some report →
    ∃ settings, ∃ k : Completion (i.world settings) (questionFromArgv i.argv), i.Starts settings ∧
      report = k.reporterState.document.render ∧ row = some (i.costRow settings k.state)

section
variable {i : Invocation} {disk : Disk Exn} {o : MainOutcome}

theorem wrote_of_mem_outcomes (h : o ∈ i.OutcomesOn stdout disk)
    (htarget : i.target disk ≠ .ok i.costDoc) (hwhole : ∀ kept e, i.costFile ≠ .failsWrite kept e) :
    ∃ row b, Str.encode (row.toList.flatMap CostRow.text) = some b ∧
      o.disk.content i.costDoc = disk.content i.costDoc ++ b ∧ i.Wrote o row := by
  cases hprinted : o.printed with
  | some report =>
    obtain ⟨settings, k, ⟨hstarts, path, b, row, hpath, -, hrow, hafter⟩, rfl⟩ :=
      delivers_of_printed h hprinted
    have hne : i.costDoc ≠ path := by
      rintro rfl
      exact htarget hpath
    refine ⟨some (i.costRow settings k.state), row,
      (congrArg Str.encode (List.flatMap_singleton ..)).trans hrow,
      by simp [hafter, Disk.content, hne], ?_, fun report hreport => ?_⟩
    · rintro x ⟨⟩
      exact ⟨settings, k, hstarts, rfl⟩
    · rw [hprinted, Option.some.injEq] at hreport
      exact ⟨settings, k, hstarts, hreport.symm, rfl⟩
  | none =>
    have hwrote {row : Option CostRow} (hown : ∀ x ∈ row,
        ∃ settings, ∃ k : Completion (i.world settings) (questionFromArgv i.argv),
          i.Starts settings ∧ x = i.costRow settings k.state) : i.Wrote o row :=
      ⟨hown, fun report hreport => by rw [hprinted] at hreport; cases hreport⟩
    have hnothing (hsame : o.disk.content i.costDoc = disk.content i.costDoc) :
        ∃ row b, Str.encode (row.toList.flatMap CostRow.text) = some b ∧
          o.disk.content i.costDoc = disk.content i.costDoc ++ b ∧ i.Wrote o row :=
      ⟨none, [], rfl, by rw [hsame, List.append_nil], hwrote (by simp)⟩
    rcases ran_of_mem_outcomes h with hsame | ⟨settings, graph, hstarts, hbehaves, hafter⟩
    · exact hnothing (by rw [hsame])
    · rcases @runResearch_content_costDoc _ (i.researchCall settings graph) _ _ _ htarget hwhole with
        hsame | ⟨final, b, hinvoke, hrow, hcontent⟩
      · exact hnothing (by rw [hafter, hsame])
      · have hreturns := hbehaves (questionFromArgv i.argv) recursionLimit
        rw [show graph (questionFromArgv i.argv) recursionLimit = .ok final from hinvoke] at hreturns
        obtain ⟨k, rfl⟩ := exists_completion_of_ainvokes hreturns
        refine ⟨some (i.costRow settings k.state), b,
          (congrArg Str.encode (List.flatMap_singleton ..)).trans hrow, by rw [hafter, hcontent],
          hwrote ?_⟩
        rintro x ⟨⟩
        exact ⟨settings, k, hstarts, rfl⟩

end

section
variable {outputsDir costDoc : Path} {disk after : Disk Exn}
variable {calls : List (Invocation × MainOutcome)} {rows : List (Option CostRow)} {doc : Str}

/-- The cost document grows by the row of every call that wrote one. -/
theorem Calls.exists_rows (h : Calls outputsDir costDoc disk calls after)
    (htargets : ∀ c ∈ calls, c.1.target disk ≠ .ok costDoc)
    (hwhole : ∀ c ∈ calls, ∀ kept e, c.1.costFile ≠ .failsWrite kept e)
    (hdoc : doc.encode = some (disk.content costDoc)) :
    ∃ rows, List.Forall₂ (fun c row => c.1.Wrote c.2 row) calls rows ∧
      (doc ++ rows.reduceOption.flatMap CostRow.text).encode = some (after.content costDoc) := by
  induction h generalizing doc with
  | nil _ => exact ⟨[], .nil, by simpa [List.reduceOption_nil] using hdoc⟩
  | @cons d d' i stdout o calls houtputsDir hcostDoc hcall hcalls ih =>
    obtain ⟨hfirst, hrest⟩ := List.forall_mem_cons.mp htargets
    have hresolve := resolve_of_mem_outcomes hcall
    obtain ⟨row, b, hb, hcontent, hwrote⟩ :=
      wrote_of_mem_outcomes hcall (hcostDoc ▸ hfirst) (hwhole (i, o) (by simp))
    have hnext : (doc ++ row.toList.flatMap CostRow.text).encode = some (o.disk.content costDoc) := by
      rw [← hcostDoc, hcontent, hcostDoc, Str.encode_append hdoc hb]
    obtain ⟨rows, hall, hencode⟩ := ih (fun c hc => target_congr hresolve c.1 ▸ hrest c hc)
      (fun c hc => hwhole c (List.mem_cons_of_mem _ hc)) hnext
    refine ⟨row :: rows, .cons hwrote hall, ?_⟩
    rw [← hencode]
    cases row with
    | none => simp [List.reduceOption_cons_of_none]
    | some row => simp [List.reduceOption_cons_of_some]

theorem date_of_wrote (h : List.Forall₂ (fun c row => c.1.Wrote c.2 row) calls rows) :
    ∀ row ∈ rows.reduceOption, ∃ t : DateTime, row.date = t.date := by
  intro row hrow
  induction h with
  | nil => simp [List.reduceOption_nil] at hrow
  | @cons c r calls rows hwrote _ ih =>
    rw [List.reduceOption_mem_iff, List.mem_cons] at hrow
    rcases hrow with hrow | hrow
    · obtain ⟨settings, k, -, rfl⟩ := hwrote.own row hrow.symm
      exact ⟨c.1.now, rfl⟩
    · exact ih (List.reduceOption_mem_iff.mpr hrow)

/-- Read back, the cost document says what it said before, and then one record for
    every call that wrote a row. -/
theorem Calls.exists_records (h : Calls outputsDir costDoc disk calls after)
    (htargets : ∀ c ∈ calls, c.1.target disk ≠ .ok costDoc)
    (hwhole : ∀ c ∈ calls, ∀ kept e, c.1.costFile ≠ .failsWrite kept e)
    (hdoc : doc.encode = some (disk.content costDoc)) (hend : doc = [] ∨ EndsInNewline doc) :
    ∃ rows, List.Forall₂ (fun c row => c.1.Wrote c.2 row) calls rows ∧
      (Str.decode (after.content costDoc)).map readCostDocument =
        some (readCostDocument doc ++ rows.reduceOption.map CostRow.shown) := by
  obtain ⟨rows, hall, hencode⟩ := h.exists_rows htargets hwhole hdoc
  refine ⟨rows, hall, ?_⟩
  rw [Str.decode_encode hencode, Option.map_some,
    readCostDocument_append_rows hend (date_of_wrote hall)]

end

/-! ## The records of a history -/

/-- What a record of the cost document says about the run of `i` that ended in `final`. -/
structure Tells (record : CostRow) (i : Invocation) (final : ResearchState) : Prop where
  date : record.date = i.now.date
  question : record.question = oneline (questionFromArgv i.argv)
  subQuestions : final.subQuestions.map List.length = some record.subQuestionCount
  cost : |record.totalCostUsd - totalCost final.costLog| ≤ 1 / 20000
  latency : |record.latencyS - i.latencyS| ≤ 1 / 20
  nodes : record.nodeCount = 3 + final.summaries.length

theorem tells_shown (i : Invocation) (settings : Settings)
    (k : Completion (i.world settings) (questionFromArgv i.argv)) :
    Tells (i.costRow settings k.state).shown i k.state := by
  have hclose := (i.costRow settings k.state).shown_close
  have hnodes := k.length_branches
  refine ⟨rfl, rfl, rfl, hclose.1, hclose.2, ?_⟩
  change 3 + min _ _ = 3 + (k.branches.map _).length
  rw [List.length_map, hnodes]
  rfl

/-- What a call adds to the records: nothing, or one that tells of a complete run
    of its own, and never nothing if the report is printed. -/
structure Invocation.Recorded (i : Invocation) (o : MainOutcome) (record : Option CostRow) :
    Prop where
  own : ∀ x ∈ record, ∃ settings, ∃ k : Completion (i.world settings) (questionFromArgv i.argv),
    i.Starts settings ∧ Tells x i k.state
  printed : ∀ report, o.printed = some report →
    ∃ settings, ∃ k : Completion (i.world settings) (questionFromArgv i.argv), i.Starts settings ∧
      report = k.reporterState.document.render ∧ ∃ x ∈ record, Tells x i k.state

theorem Invocation.Wrote.recorded {i : Invocation} {o : MainOutcome} {row : Option CostRow}
    (h : i.Wrote o row) : i.Recorded o (row.map CostRow.shown) := by
  constructor
  · intro x hx
    obtain ⟨y, hy, rfl⟩ := Option.mem_map.mp hx
    obtain ⟨settings, k, hstarts, rfl⟩ := h.own y hy
    exact ⟨settings, k, hstarts, tells_shown i settings k⟩
  · intro report hprinted
    obtain ⟨settings, k, hstarts, hreport, rfl⟩ := h.printed report hprinted
    exact ⟨settings, k, hstarts, hreport, _, rfl, tells_shown i settings k⟩

/-- After any history of calls in which no append was torn, the cost document read
    back says what it said before, and after that, call by call, one record for
    every run that was saved. -/
theorem calls_recorded {outputsDir costDoc : Path} {disk after : Disk Exn}
    {calls : List (Invocation × MainOutcome)} {doc : Str}
    (h : Calls outputsDir costDoc disk calls after)
    (htargets : ∀ c ∈ calls, c.1.target disk ≠ .ok costDoc)
    (hwhole : ∀ c ∈ calls, ∀ kept e, c.1.costFile ≠ .failsWrite kept e)
    (hdoc : doc.encode = some (disk.content costDoc)) (hend : doc = [] ∨ EndsInNewline doc) :
    ∃ records, List.Forall₂ (fun c record => c.1.Recorded c.2 record) calls records ∧
      (Str.decode (after.content costDoc)).map readCostDocument =
        some (readCostDocument doc ++ records.reduceOption) := by
  obtain ⟨rows, hall, hread⟩ := h.exists_records htargets hwhole hdoc hend
  refine ⟨rows.map (Option.map CostRow.shown), ?_, by rw [hread, List.reduceOption_map]⟩
  exact List.forall₂_map_right_iff.mpr (hall.imp fun _ _ hwrote => hwrote.recorded)

omit [UnicodeData] in
/-- The same call, twice, on a disk without a cost document. -/
theorem calls_recorded_page :
    ∃ (after : Disk Exn) (record record' : CostRow) (final final' : ResearchState),
      (Str.decode (after.content [lit "cost-breakdown.md"])).map readCostDocument =
        some [record, record'] ∧
      Tells record pageCall final ∧ Tells record' pageCall final' := by
  obtain ⟨o, o', report, report', hcalls, hprinted, hprinted'⟩ := @exists_calls_pageCall .basicLatin
  obtain ⟨records, hall, hread⟩ := @calls_recorded .basicLatin _ _ _ _ _ [] hcalls
    (by simpa using @target_pageCall_ne .basicLatin) (by simp [pageCall, tracedCall]) rfl (.inl rfl)
  obtain ⟨r, rest, hrecorded, hrest, rfl⟩ := List.forall₂_cons_left_iff.mp hall
  obtain ⟨r', last, hrecorded', hlast, rfl⟩ := List.forall₂_cons_left_iff.mp hrest
  obtain rfl := List.forall₂_nil_left_iff.mp hlast
  obtain ⟨settings, k, -, -, x, rfl, htells⟩ :=
    @Invocation.Recorded.printed .basicLatin _ _ _ hrecorded report hprinted
  obtain ⟨settings', k', -, -, x', rfl, htells'⟩ :=
    @Invocation.Recorded.printed .basicLatin _ _ _ hrecorded' report' hprinted'
  exact ⟨_, x, x', _, _, hread, htells, htells'⟩

/-! ## The two texts of a run -/

/-- A report and a record of the cost document, as texts of the same run. -/
structure Agree (report : Str) (figures : List Figures) (total : ℚ) (record : CostRow) : Prop where
  title : report.splitlines.head? = some (lit "# Research Report: " ++ record.question)
  cost : |record.totalCostUsd - total| ≤ 1 / 20000
  /-- The reporter is a node that pays for no call. -/
  calls : figures.length + 1 ≤ record.nodeCount
  nodes : record.nodeCount ≤ 3 + record.subQuestionCount

theorem Completion.agree {i : Invocation} {settings : Settings}
    (k : Completion (i.world settings) (questionFromArgv i.argv)) :
    Agree k.reporterState.document.render (k.state.costLog.map CostEntry.figures)
      (totalCost k.state.costLog) (i.costRow settings k.state).shown := by
  have htells := tells_shown i settings k
  have hentries : k.state.costLog.length ≤ 2 + k.branches.length := by
    have hle := List.length_filterMap_le (·.2.entry) k.branches
    simp only [state, reporterState, List.length_append, List.length_singleton]
    omega
  have hbranches : k.state.summaries.length = k.branches.length := List.length_map _
  refine ⟨k.reporterState.document.head?_splitlines_render, htells.cost, ?_, ?_⟩
  · rw [htells.nodes, hbranches, List.length_map]
    omega
  · have hsub : (i.costRow settings k.state).shown.subQuestionCount =
        k.decomposed.subQuestions.length := rfl
    have hlength := k.length_branches
    rw [htells.nodes, hbranches, hsub]
    omega

/-- If `o` has printed a report, `record` is there and agrees with it. -/
def AgreesWith (o : MainOutcome) (record : Option CostRow) : Prop :=
  ∀ report, o.printed = some report → ∃ x ∈ record, ∃ figures total,
    Audited report figures total ∧ Agree report figures total x

theorem Invocation.Wrote.agreesWith {i : Invocation} {o : MainOutcome} {row : Option CostRow}
    (h : i.Wrote o row) : AgreesWith o (row.map CostRow.shown) := by
  intro report hprinted
  obtain ⟨settings, k, -, rfl, rfl⟩ := h.printed report hprinted
  exact ⟨_, rfl, _, _, k.audited, k.agree⟩

/-- After any history of calls in which no append was torn, every printed report
    agrees with the record of its own call, and it is still on the disk, to the
    letter, unless a later call has the same path. -/
theorem artifacts_agree {outputsDir costDoc : Path} {disk after : Disk Exn}
    {calls : List (Invocation × MainOutcome)} {doc : Str}
    (h : Calls outputsDir costDoc disk calls after)
    (htargets : ∀ c ∈ calls, c.1.target disk ≠ .ok costDoc)
    (hwhole : ∀ c ∈ calls, ∀ kept e, c.1.costFile ≠ .failsWrite kept e)
    (hdoc : doc.encode = some (disk.content costDoc)) (hend : doc = [] ∨ EndsInNewline doc) :
    (∃ records, List.Forall₂ (fun c record => AgreesWith c.2 record) calls records ∧
      (Str.decode (after.content costDoc)).map readCostDocument =
        some (readCostDocument doc ++ records.reduceOption)) ∧
    ∀ before i o later report, calls = before ++ (i, o) :: later → o.printed = some report →
      (∀ c ∈ later, c.1.target disk ≠ i.target disk) →
        ∃ path, i.target disk = .ok path ∧ (after.files path).bind Str.decode = some report := by
  constructor
  · obtain ⟨rows, hall, hread⟩ := h.exists_records htargets hwhole hdoc hend
    refine ⟨rows.map (Option.map CostRow.shown), ?_, by rw [hread, List.reduceOption_map]⟩
    exact List.forall₂_map_right_iff.mpr (hall.imp fun _ _ hwrote => hwrote.agreesWith)
  · intro before i o later report hcalls hprinted hlater
    have hcost : i.target disk ≠ .ok costDoc := htargets (i, o) (by rw [hcalls]; simp)
    obtain ⟨path, b, hpath, hb, hfile⟩ := h.report_kept hcalls hprinted hcost hlater
    exact ⟨path, hpath, by rw [hfile, Option.bind_some, Str.decode_encode hb]⟩

omit [UnicodeData] in
theorem artifacts_agree_page :
    ∃ (after : Disk Exn) (records : List CostRow) (report : Str) (record : CostRow)
      (figures : List Figures) (total : ℚ),
      (Str.decode (after.content [lit "cost-breakdown.md"])).map readCostDocument = some records ∧
      record ∈ records ∧ @Audited .basicLatin report figures total ∧
      Agree report figures total record := by
  obtain ⟨o, o', report, -, hcalls, hprinted, -⟩ := @exists_calls_pageCall .basicLatin
  obtain ⟨⟨records, hall, hread⟩, -⟩ := @artifacts_agree .basicLatin _ _ _ _ _ [] hcalls
    (by simpa using @target_pageCall_ne .basicLatin) (by simp [pageCall, tracedCall]) rfl (.inl rfl)
  obtain ⟨r, rest, hagrees, -, rfl⟩ := List.forall₂_cons_left_iff.mp hall
  obtain ⟨x, rfl, figures, total, haudited, hagree⟩ := hagrees report hprinted
  refine ⟨_, _, report, x, figures, total, hread, ?_, haudited, hagree⟩
  simp [List.reduceOption_cons_of_some]

end ResearchSynthesis
