-- SUMMARY: What the exit code of `main` says about the report, the cost document and the printed text, and when it is sure to be 0.
import ResearchSynthesis.Graph.Outcomes
import ResearchSynthesis.Main.Encoding
import ResearchSynthesis.Main.Tracing

/-!
# The contract of `main`

A caller sees an exit code, what is printed and the disk. `main_contract` ties
the three together for every behaviour of the graph, the file system, Langfuse
and standard output; `main_delivers` says what is enough for a report.
-/

namespace ResearchSynthesis
open Python StateGraph

variable [UnicodeData]

/-- The ways a call of `main` can end, as far as its last `print`. -/
inductive Invocation.Ends (i : Invocation) (graph : Ainvoke) (disk : Disk Exn) :
    MainOutcome → Prop where
  | usage (hquestion : questionFromArgv i.argv = []) : i.Ends graph disk ⟨.ok 2, none, disk⟩
  /-- Something fails before the graph runs. -/
  | stopped (hquestion : questionFromArgv i.argv ≠ []) : i.Ends graph disk ⟨.ok 1, none, disk⟩
  | failed {settings : Settings} {e : Exn} {after : Disk Exn} (hstarts : i.Starts settings)
      (hrun : runResearch (i.researchCall settings graph) i.outputsDir i.costDoc disk =
        (.error e, after)) :
      i.Ends graph disk ⟨.ok 1, none, after⟩
  | returned {settings : Settings} {path : Path} {final : ResearchState} {after : Disk Exn}
      (hstarts : i.Starts settings)
      (hrun : runResearch (i.researchCall settings graph) i.outputsDir i.costDoc disk =
        (.ok (path, final), after)) :
      i.Ends graph disk ⟨.ok 0, some (savedReport final), after⟩
  /-- What `flush` raises replaces whatever the run came to. -/
  | unflushed {settings : Settings} {e : Exn} {after : Disk Exn} (hstarts : i.Starts settings)
      (htraced : settings.Traced) (hclient : i.langfuse.client = .ok ())
      (hflush : i.flush = .error e)
      (hafter : after = disk ∨
        after = (runResearch (i.researchCall settings graph) i.outputsDir i.costDoc disk).2) :
      i.Ends graph disk ⟨.error e, none, after⟩

namespace Invocation

variable {i : Invocation} {settings : Settings} {graph : Ainvoke} {disk : Disk Exn}

theorem main_of_not_starts (hquestion : questionFromArgv i.argv ≠ [])
    (h : ∀ settings, ¬ i.Starts settings) : main i graph disk = ⟨.ok 1, none, disk⟩ := by
  cases hsettings : i.settings with
  | error e => simp [main, hquestion, attempt, hsettings, finish]
  | ok settings =>
    cases hmodels : validateModels settings with
    | ok _ => exact absurd ⟨hquestion, hsettings, hmodels⟩ (h settings)
    | error e => simp [main, hquestion, attempt, hsettings, hmodels, finish]

/-- What comes after the client, which is there only with both keys. -/
theorem ends_finish (hstarts : i.Starts settings) {client : Option Unit}
    (hclient : client.isSome → settings.Traced ∧ i.langfuse.client = .ok ()) :
    i.Ends graph disk (i.finish client (i.research settings graph disk)) := by
  have hresearch : (∃ e, i.research settings graph disk = (.error e, disk)) ∨
      i.research settings graph disk =
        runResearch (i.researchCall settings graph) i.outputsDir i.costDoc disk := by
    rw [research]
    cases i.mkdir with
    | error e => exact .inl ⟨e, rfl⟩
    | ok _ => exact .inr rfl
  cases hflush : if client.isSome then i.flush else .ok () with
  | error e =>
    have hsome : client.isSome := by
      by_contra hnone
      rw [if_neg hnone] at hflush
      cases hflush
    rw [if_pos hsome] at hflush
    rw [finish, if_pos hsome, hflush]
    refine .unflushed hstarts (hclient hsome).1 (hclient hsome).2 hflush ?_
    rcases hresearch with ⟨e, hr⟩ | hr
    · exact .inl (by rw [hr])
    · exact .inr (by rw [hr])
  | ok _ =>
    rw [finish, hflush]
    rcases hresearch with ⟨e, hr⟩ | hr
    · rw [hr]
      exact .stopped hstarts.question
    · cases hrun : runResearch (i.researchCall settings graph) i.outputsDir i.costDoc disk with
      | mk result after =>
        rw [hr, hrun]
        cases result with
        | error e => exact .failed hstarts hrun
        | ok x => exact .returned hstarts hrun

theorem main_ends (i : Invocation) (graph : Ainvoke) (disk : Disk Exn) :
    i.Ends graph disk (main i graph disk) := by
  by_cases hquestion : questionFromArgv i.argv = []
  · rw [main, if_pos hquestion]
    exact .usage hquestion
  by_cases hstarts : ∃ settings, i.Starts settings
  · obtain ⟨settings, hstarts⟩ := hstarts
    by_cases htraced : settings.Traced
    · cases hclient : i.langfuse.client with
      | error e =>
        rw [hstarts.main_of_client_error htraced hclient]
        exact .stopped hquestion
      | ok _ =>
        rw [hstarts.main_of_client htraced hclient]
        exact ends_finish hstarts fun _ => ⟨htraced, hclient⟩
    · rw [hstarts.main_of_not_traced htraced]
      exact ends_finish hstarts (by simp)
  · rw [main_of_not_starts hquestion fun settings h => hstarts ⟨settings, h⟩]
    exact .stopped hquestion

/-! ## What a call leaves -/

/-- The row of a run that ended in `final`. -/
def row (i : Invocation) (settings : Settings) (final : ResearchState) : Str :=
  ((i.researchCall settings fun _ _ => .ok final).costRow final).text

/-- The run `k` is complete, its report is on the disk, and after that its row. -/
structure Delivers (i : Invocation) (settings : Settings) (disk : Disk Exn)
    (k : Completion (i.world settings) (questionFromArgv i.argv)) (after : Disk Exn) : Prop where
  starts : i.Starts settings
  stored : ∃ path b row,
    buildOutputPath (questionFromArgv i.argv) i.now i.outputsDir disk = .ok path ∧
    k.reporterState.document.render.encode = some b ∧
    (i.row settings k.state).encode = some row ∧
    after = (disk.store path b).store i.costDoc ((disk.store path b).content i.costDoc ++ row)

/-- A run that returned is complete, and has been delivered. -/
theorem exists_delivers (hstarts : i.Starts settings) {path : Path} {final : ResearchState}
    {after : Disk Exn} (hbehaves : (i.world settings).Behaves graph)
    (hrun : runResearch (i.researchCall settings graph) i.outputsDir i.costDoc disk =
      (.ok (path, final), after)) :
    ∃ k, i.Delivers settings disk k after ∧ savedReport final = k.reporterState.document.render := by
  have houtcome := runResearch_outcome (i.researchCall settings graph) i.outputsDir i.costDoc disk
  rw [hrun] at houtcome
  obtain ⟨hinvoke, hpath, b, row, hreport, hrow, hafter⟩ := houtcome.saved_of_ok rfl
  have hreturns := hbehaves (questionFromArgv i.argv) recursionLimit
  rw [show graph (questionFromArgv i.argv) recursionLimit = .ok final from hinvoke] at hreturns
  obtain ⟨k, rfl⟩ := exists_completion_of_ainvokes hreturns
  exact ⟨k, ⟨hstarts, path, b, row, hpath, hreport, hrow, hafter⟩, rfl⟩

/-- What the exit code of a call says. -/
structure Contract (i : Invocation) (stdout : Str → Except Exn Unit) (disk : Disk Exn)
    (o : MainOutcome) : Prop where
  code : ∀ code, o.exit = .ok code → code ≤ 2
  /-- The exception is one of `flush`, or one of printing a report that has been saved. -/
  raises : ∀ e, o.exit = .error e → o.printed = none ∧ ∃ settings, i.Starts settings ∧
    ((i.flush = .error e ∧ settings.Traced ∧ i.langfuse.client = .ok ()) ∨
      ∃ k, i.Delivers settings disk k o.disk ∧ stdout k.reporterState.document.render = .error e)
  usage : o.exit = .ok 2 ↔ questionFromArgv i.argv = []
  untouched : o.exit = .ok 2 → o.printed = none ∧ o.disk = disk
  printed : o.exit = .ok 0 ↔ ∃ report, o.printed = some report
  delivered : ∀ report, o.printed = some report → stdout report = .ok () ∧ ∃ settings k,
    i.Delivers settings disk k o.disk ∧ report = k.reporterState.document.render
  failed : o.exit = .ok 1 → o.printed = none ∧ (o.disk = disk ∨ ∃ settings graph,
    i.Starts settings ∧ (i.world settings).Behaves graph ∧
      LateTrace (i.researchCall settings graph) i.outputsDir i.costDoc disk o.disk)

section
variable {stdout : Str → Except Exn Unit} {after : Disk Exn}

theorem contract_usage (hquestion : questionFromArgv i.argv = []) :
    i.Contract stdout disk ⟨.ok 2, none, disk⟩ :=
  ⟨by simp, by simp, by simp [hquestion], by simp, by simp, by simp, by simp⟩

theorem contract_failed (hquestion : questionFromArgv i.argv ≠ [])
    (htrace : after = disk ∨ ∃ settings graph, i.Starts settings ∧
      (i.world settings).Behaves graph ∧
        LateTrace (i.researchCall settings graph) i.outputsDir i.costDoc disk after) :
    i.Contract stdout disk ⟨.ok 1, none, after⟩ :=
  ⟨by simp, by simp, by simp [hquestion], by simp, by simp, by simp, fun _ => ⟨rfl, htrace⟩⟩

theorem contract_raised (hstarts : i.Starts settings) {e : Exn}
    (hcause : (i.flush = .error e ∧ settings.Traced ∧ i.langfuse.client = .ok ()) ∨
      ∃ k, i.Delivers settings disk k after ∧ stdout k.reporterState.document.render = .error e) :
    i.Contract stdout disk ⟨.error e, none, after⟩ := by
  refine ⟨by simp, fun e' he => ?_, by simp [hstarts.question], by simp, by simp, by simp, by simp⟩
  obtain rfl := Except.error.inj he
  exact ⟨rfl, settings, hstarts, hcause⟩

theorem contract_delivered {k : Completion (i.world settings) (questionFromArgv i.argv)}
    (hdelivers : i.Delivers settings disk k after)
    (hstdout : stdout k.reporterState.document.render = .ok ()) :
    i.Contract stdout disk ⟨.ok 0, some k.reporterState.document.render, after⟩ := by
  refine ⟨by simp, by simp, by simp [hdelivers.starts.question], by simp, by simp,
    fun report hprinted => ?_, by simp⟩
  obtain rfl := Option.some.inj hprinted
  exact ⟨hstdout, settings, k, hdelivers, rfl⟩

end

end Invocation

open Invocation in
/-- The contract of `main`, whatever the graph, the file system, Langfuse and
    standard output do. The exit code is 0, 1 or 2 unless `flush` raises, or
    printing a report that has been saved. It is 2 exactly without a question, and
    then nothing has happened. It is 0 exactly when something is printed: the
    report of a complete run, which has been stored with its row. It is 1 with
    nothing printed, and the disk is untouched or holds the trace of the one run
    that failed. -/
theorem main_contract (i : Invocation) (stdout : Str → Except Exn Unit) (disk : Disk Exn) :
    ∀ o ∈ i.OutcomesOn stdout disk, i.Contract stdout disk o := by
  rintro _ ⟨o, ⟨graph, hgraph, rfl⟩, rfl⟩
  have hends := i.main_ends graph disk
  generalize main i graph disk = o at hends
  cases hends with
  | usage hquestion => exact contract_usage hquestion
  | stopped hquestion => exact contract_failed hquestion (.inl rfl)
  | @failed settings e after hstarts hrun =>
    have houtcome := runResearch_outcome (i.researchCall settings graph) i.outputsDir i.costDoc disk
    rw [hrun] at houtcome
    refine contract_failed hstarts.question ?_
    by_cases hearly : FailsEarly (i.researchCall settings graph) i.outputsDir disk
    · exact .inl (houtcome.untouched hearly).2
    · exact .inr ⟨settings, graph, hstarts, hgraph settings hstarts.loaded,
        houtcome.lateTrace hearly rfl⟩
  | @returned settings path final after hstarts hrun =>
    obtain ⟨k, hdelivers, hreport⟩ := exists_delivers hstarts (hgraph settings hstarts.loaded) hrun
    rw [hreport]
    cases hstdout : stdout k.reporterState.document.render with
    | ok _ =>
      rw [MainOutcome.on_of_ok hstdout]
      exact contract_delivered hdelivers hstdout
    | error e =>
      rw [MainOutcome.on_of_error hstdout]
      exact contract_raised hstarts (.inr ⟨k, hdelivers, hstdout⟩)
  | unflushed hstarts htraced hclient hflush _ =>
    exact contract_raised hstarts (.inl ⟨hflush, htraced, hclient⟩)

/-! ## When a report is sure -/

/-- What is enough for a report, whatever the searches do, whatever the model
    answers to the branches and the assembly and in whatever order the branches
    finish. -/
structure Invocation.Ready (i : Invocation) (settings : Settings) (disk : Disk Exn) : Prop where
  starts : i.Starts settings
  langfuse : settings.Traced → i.langfuse.client = .ok () ∧ i.flush = .ok ()
  mkdir : i.mkdir = .ok ()
  causes : ∀ e, ¬ (i.world settings).Raises (questionFromArgv i.argv) e
  path : ∃ path, buildOutputPath (questionFromArgv i.argv) i.now i.outputsDir disk = .ok path
  reportFile : i.reportFile = .accepts
  costFile : i.costFile = .accepts
  question : (questionFromArgv i.argv).Encodable
  report : ∀ k : Completion (i.world settings) (questionFromArgv i.argv), Storable k.state

/-- Whatever the searches and the model do, such a call comes to its report. -/
theorem Invocation.Ready.printed {i : Invocation} {settings : Settings} {disk : Disk Exn}
    (h : i.Ready settings disk) :
    ∀ o ∈ i.Outcomes disk, o.exit = .ok 0 ∧
      ∃ k, i.Delivers settings disk k o.disk ∧ o.printed = some k.reporterState.document.render := by
  rintro o ho
  obtain ⟨r, hr, rfl⟩ := (Invocation.mem_outcomes_iff h.starts.loaded).mp ho
  cases r with
  | error e =>
    have hlimit : 4 < recursionLimit := by decide
    exact absurd (raises_of_ainvokes (w := i.world settings) h.starts.models hlimit hr) (h.causes e)
  | ok final =>
    obtain ⟨k, rfl⟩ := exists_completion_of_ainvokes hr
    obtain ⟨path, hpath⟩ := h.path
    obtain ⟨b, row, hb, hrow, hrun⟩ := @runResearch_of_encodable _
      (i.researchCall settings fun _ _ => .ok k.state) i.outputsDir i.costDoc path disk k.state rfl
      hpath h.reportFile h.costFile h.question ((k.encodable_report h.question).mpr (h.report k))
    have hresearch : i.research settings (fun _ _ => .ok k.state) disk = (.ok (path, k.state),
        (disk.store path b).store i.costDoc ((disk.store path b).content i.costDoc ++ row)) := by
      rw [Invocation.research, h.mkdir]
      exact hrun
    have hmain : main i (fun _ _ => .ok k.state) disk =
        ⟨.ok 0, some (savedReport k.state), (disk.store path b).store i.costDoc
          ((disk.store path b).content i.costDoc ++ row)⟩ := by
      by_cases htraced : settings.Traced
      · rw [h.starts.main_of_client htraced (h.langfuse htraced).1, hresearch, Invocation.finish,
          (h.langfuse htraced).2]
        rfl
      · rw [h.starts.main_of_not_traced htraced, hresearch]
        rfl
    rw [hmain]
    exact ⟨rfl, k, ⟨h.starts, path, b, row, hpath, hb, hrow, rfl⟩, rfl⟩

/-- A call that has what it takes, and a standard output that takes every report
    it can come to, ends with a report, and can only end so. -/
theorem main_delivers (i : Invocation) {settings : Settings} {stdout : Str → Except Exn Unit}
    {disk : Disk Exn} (h : i.Ready settings disk)
    (hstdout : ∀ k : Completion (i.world settings) (questionFromArgv i.argv),
      stdout k.reporterState.document.render = .ok ()) :
    (i.OutcomesOn stdout disk).Nonempty ∧ ∀ o ∈ i.OutcomesOn stdout disk, o.exit = .ok 0 ∧
      ∃ k, i.Delivers settings disk k o.disk ∧
        o.printed = some k.reporterState.document.render := by
  refine ⟨(i.outcomes_nonempty disk).image _, ?_⟩
  rintro _ ⟨⟨exit, printed, after⟩, ho, rfl⟩
  obtain ⟨rfl, k, hdelivers, rfl⟩ := h.printed _ ho
  rw [MainOutcome.on_of_ok (hstdout k)]
  exact ⟨rfl, k, hdelivers, rfl⟩

omit [UnicodeData] in
/-- A call without Langfuse that finds one page for every sub-question. -/
def pageCall : Invocation :=
  { tracedCall {} (.ok ()) with
    settings := .ok keyedSettings
    branch := (titledWorld (lit "page")).branch }

theorem ready_pageCall {disk : Disk Exn} (hresolve : disk.resolve = Except.ok) :
    pageCall.Ready keyedSettings disk := by
  have hquestion : questionFromArgv pageCall.argv = lit "question" := by decide
  have hsound : (titledWorld (lit "page")).Sound (lit "question") := sound_titledWorld _ _
  have hlimit : 4 < recursionLimit := by decide
  obtain ⟨c, hreach, hdone⟩ := exists_done_of_reaches hsound hlimit .refl
  have hcauses := not_raises_of_ainvokes hsound.models hlimit (ainvokes_of_done hlimit hreach hdone)
  have hplain : PlainName (questionFromArgv pageCall.argv) pageCall.now pageCall.outputsDir disk :=
    fun _ _ => by rw [hresolve]
  refine ⟨⟨by rw [hquestion]; decide, rfl, hsound.models⟩, fun h => absurd h.1 (by decide), rfl, ?_,
    ⟨_, hplain.buildOutputPath (by rw [hresolve])⟩, rfl, rfl, by rw [hquestion]; decide, ?_⟩
  · rw [hquestion]
    exact hcauses
  · rw [hquestion]
    intro k
    exact (storable_titledWorld (k := k)).mpr (by decide)

omit [UnicodeData] in
theorem main_delivers_page :
    ∃ o k, o ∈ @Invocation.OutcomesOn .basicLatin pageCall (fun _ => .ok ()) emptyDisk ∧
      o.exit = .ok 0 ∧ @Invocation.Delivers .basicLatin pageCall keyedSettings emptyDisk k o.disk ∧
      o.printed = some (@Document.render .basicLatin
        (@Completion.reporterState .basicLatin _ _ k).document) := by
  obtain ⟨⟨o, ho⟩, hall⟩ := @main_delivers .basicLatin pageCall keyedSettings (fun _ => .ok ())
    emptyDisk (@ready_pageCall .basicLatin _ rfl) fun _ => rfl
  obtain ⟨hexit, k, hdelivers, hprinted⟩ := hall o ho
  exact ⟨o, k, ho, hexit, hdelivers, hprinted⟩

omit [UnicodeData] in
/-- The report has been saved when a standard output refuses it. -/
theorem main_contract_page :
    ∃ o, @Invocation.Contract .basicLatin pageCall (fun _ => .error unicodeEncodeError) emptyDisk o ∧
      o.exit = .error unicodeEncodeError := by
  obtain ⟨⟨exit, printed, after⟩, ho⟩ := @Invocation.outcomes_nonempty .basicLatin pageCall emptyDisk
  obtain ⟨-, k, -, rfl⟩ := @Invocation.Ready.printed .basicLatin _ _ _
    (@ready_pageCall .basicLatin _ rfl) _ ho
  exact ⟨_, @main_contract .basicLatin pageCall (fun _ => .error unicodeEncodeError) emptyDisk _
    ⟨_, ho, rfl⟩, rfl⟩

end ResearchSynthesis
