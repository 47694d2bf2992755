-- SUMMARY: Any sequence of calls of `main`, failed ones included: what it changes on the disk and what stays.
import ResearchSynthesis.Main.Contract

/-!
# A history of calls

Calls of `main` share an outputs directory and a cost document. Whatever each of
them comes to, a call changes the file of its own report and adds to the end of
the cost document; `calls_journal` says what that leaves after a history of them.
-/

namespace ResearchSynthesis
open Python StateGraph

variable [UnicodeData]

/-! ## What one run leaves -/

section
variable {call : ResearchCall} {outputsDir costDoc : Path} {disk : Disk Exn}
variable {r : Except Exn (Path × ResearchState) × Disk Exn}

/-- A run stores nothing, or the report's file and then perhaps the start of its
    row. -/
theorem Outcome.disk_cases (h : Outcome call outputsDir costDoc disk r) :
    r.2 = disk ∨ ∃ final path b, call.ainvoke call.question recursionLimit = .ok final ∧
      buildOutputPath call.question call.now outputsDir disk = .ok path ∧
      (r.2 = disk.store path b ∨ ∃ chunk, chunk <+: (call.costRow final).text.encode.getD [] ∧
        r.2 = (disk.store path b).store costDoc ((disk.store path b).content costDoc ++ chunk)) := by
  cases hr : r.1 with
  | error e =>
    by_cases hearly : FailsEarly call outputsDir disk
    · exact .inl (h.untouched hearly).2
    have htrace := h.lateTrace hearly hr
    generalize r.2 = after at htrace ⊢
    cases htrace with
    | report kept hinvoke hpath => exact .inr ⟨_, _, _, hinvoke, hpath, .inl rfl⟩
    | row kept hinvoke hpath hreport =>
      exact .inr ⟨_, _, _, hinvoke, hpath, .inr ⟨_, List.take_prefix _ _, rfl⟩⟩
  | ok x =>
    obtain ⟨hinvoke, hpath, b, row, -, hrow, hafter⟩ := h.saved_of_ok hr
    exact .inr ⟨_, _, b, hinvoke, hpath, .inr ⟨row, by rw [hrow]; exact List.prefix_rfl, hafter⟩⟩

theorem Outcome.resolve (h : Outcome call outputsDir costDoc disk r) :
    r.2.resolve = disk.resolve := by
  rcases h.disk_cases with hsame | ⟨_, _, _, -, -, hsame | ⟨_, -, hsame⟩⟩ <;> rw [hsame] <;> rfl

theorem Outcome.frame (h : Outcome call outputsDir costDoc disk r) {p : Path} (hcost : p ≠ costDoc)
    (hpath : buildOutputPath call.question call.now outputsDir disk ≠ .ok p) :
    r.2.files p = disk.files p := by
  rcases h.disk_cases with hsame | ⟨final, path, b, -, hown, hsame⟩
  · rw [hsame]
  · have hne : p ≠ path := by
      rintro rfl
      exact hpath hown
    rcases hsame with hsame | ⟨chunk, -, hsame⟩
    · simp [hsame, hne]
    · simp [hsame, hne, hcost]

theorem Outcome.content_costDoc (h : Outcome call outputsDir costDoc disk r)
    (hpath : buildOutputPath call.question call.now outputsDir disk ≠ .ok costDoc) :
    ∃ chunk, r.2.content costDoc = disk.content costDoc ++ chunk ∧
      (chunk = [] ∨ ∃ final, call.ainvoke call.question recursionLimit = .ok final ∧
        chunk <+: (call.costRow final).text.encode.getD []) := by
  rcases h.disk_cases with hsame | ⟨final, path, b, hinvoke, hown, hsame⟩
  · exact ⟨[], by rw [hsame, List.append_nil], .inl rfl⟩
  · have hne : costDoc ≠ path := by
      rintro rfl
      exact hpath hown
    rcases hsame with hsame | ⟨chunk, hchunk, hsame⟩
    · exact ⟨[], by simp [hsame, Disk.content, hne], .inl rfl⟩
    · exact ⟨chunk, by simp [hsame, Disk.content, hne], .inr ⟨final, hinvoke, hchunk⟩⟩

end

/-! ## What one call leaves -/

/-- The path of the report that a call would write. -/
def Invocation.target (i : Invocation) (disk : Disk Exn) : Except Exn Path :=
  buildOutputPath (questionFromArgv i.argv) i.now i.outputsDir disk

/-- What a call adds to the cost document: nothing, or the start of the row of a
    complete run of its own, which is whole if the report is printed. -/
structure Invocation.Adds (i : Invocation) (o : MainOutcome) (chunk : Bytes) : Prop where
  start : chunk = [] ∨ ∃ settings, ∃ k : Completion (i.world settings) (questionFromArgv i.argv),
    i.Starts settings ∧ chunk <+: (i.row settings k.state).encode.getD []
  whole : ∀ report, o.printed = some report →
    ∃ settings, ∃ k : Completion (i.world settings) (questionFromArgv i.argv),
      i.Starts settings ∧ report = k.reporterState.document.render ∧
        (i.row settings k.state).encode = some chunk

section
variable {i : Invocation} {stdout : Str → Except Exn Unit} {disk : Disk Exn} {o : MainOutcome}

/-- The disk after a call is the disk after a run, if it is another one. -/
theorem ran_of_mem_outcomes (h : o ∈ i.OutcomesOn stdout disk) :
    o.disk = disk ∨ ∃ settings graph, i.Starts settings ∧ (i.world settings).Behaves graph ∧
      o.disk = (runResearch (i.researchCall settings graph) i.outputsDir i.costDoc disk).2 := by
  obtain ⟨o, ⟨graph, hgraph, rfl⟩, rfl⟩ := h
  have hends := i.main_ends graph disk
  rw [MainOutcome.disk_on]
  generalize main i graph disk = o at hends
  cases hends with
  | usage _ | stopped _ => exact .inl rfl
  | failed hstarts hrun => exact .inr ⟨_, graph, hstarts, hgraph _ hstarts.loaded, by rw [hrun]⟩
  | returned hstarts hrun => exact .inr ⟨_, graph, hstarts, hgraph _ hstarts.loaded, by rw [hrun]⟩
  | unflushed hstarts _ _ _ hafter =>
    exact hafter.imp_right fun hafter => ⟨_, graph, hstarts, hgraph _ hstarts.loaded, hafter⟩

theorem disk_of_mem_outcomes (h : o ∈ i.OutcomesOn stdout disk) :
    o.disk = disk ∨ ∃ settings graph, i.Starts settings ∧ (i.world settings).Behaves graph ∧
      Outcome (i.researchCall settings graph) i.outputsDir i.costDoc disk
        ((runResearch (i.researchCall settings graph) i.outputsDir i.costDoc disk).1, o.disk) := by
  refine (ran_of_mem_outcomes h).imp_right ?_
  rintro ⟨settings, graph, hstarts, hbehaves, hafter⟩
  rw [hafter]
  exact ⟨settings, graph, hstarts, hbehaves, runResearch_outcome _ _ _ _⟩

theorem resolve_of_mem_outcomes (h : o ∈ i.OutcomesOn stdout disk) : o.disk.resolve = disk.resolve := by
  rcases disk_of_mem_outcomes h with hsame | ⟨_, _, -, -, houtcome⟩
  · rw [hsame]
  · exact houtcome.resolve

theorem files_of_mem_outcomes (h : o ∈ i.OutcomesOn stdout disk) {p : Path} (hcost : p ≠ i.costDoc)
    (htarget : i.target disk ≠ .ok p) : o.disk.files p = disk.files p := by
  rcases disk_of_mem_outcomes h with hsame | ⟨_, _, -, -, houtcome⟩
  · rw [hsame]
  · exact houtcome.frame hcost htarget

/-- A report is printed after it has been delivered. -/
theorem delivers_of_printed (h : o ∈ i.OutcomesOn stdout disk) {report : Str}
    (hprinted : o.printed = some report) :
    ∃ settings k, i.Delivers settings disk k o.disk ∧ report = k.reporterState.document.render := by
  obtain ⟨o, ⟨graph, hgraph, rfl⟩, rfl⟩ := h
  have hends := i.main_ends graph disk
  replace hprinted := MainOutcome.printed_of_on hprinted
  rw [MainOutcome.disk_on]
  generalize main i graph disk = o at hends hprinted
  cases hends with
  | usage _ | stopped _ | failed _ _ | unflushed _ _ _ _ _ => cases hprinted
  | returned hstarts hrun =>
    cases hprinted
    obtain ⟨k, hdelivers, hreport⟩ :=
      Invocation.exists_delivers hstarts (hgraph _ hstarts.loaded) hrun
    exact ⟨_, k, hdelivers, hreport⟩

theorem adds_of_mem_outcomes (h : o ∈ i.OutcomesOn stdout disk) (htarget : i.target disk ≠ .ok i.costDoc) :
    ∃ chunk, o.disk.content i.costDoc = disk.content i.costDoc ++ chunk ∧ i.Adds o chunk := by
  cases hprinted : o.printed with
  | some report =>
    obtain ⟨settings, k, ⟨hstarts, path, b, row, hpath, -, hrow, hafter⟩, rfl⟩ :=
      delivers_of_printed h hprinted
    have hne : i.costDoc ≠ path := by
      rintro rfl
      exact htarget hpath
    refine ⟨row, by simp [hafter, Disk.content, hne], ?_, fun report hreport => ?_⟩
    · exact .inr ⟨settings, k, hstarts, by rw [hrow]; exact List.prefix_rfl⟩
    · rw [hprinted, Option.some.injEq] at hreport
      exact ⟨settings, k, hstarts, hreport.symm, hrow⟩
  | none =>
    have hwhole {chunk : Bytes} (hstart : chunk = [] ∨
        ∃ settings, ∃ k : Completion (i.world settings) (questionFromArgv i.argv),
          i.Starts settings ∧ chunk <+: (i.row settings k.state).encode.getD []) : i.Adds o chunk :=
      ⟨hstart, fun report hreport => by rw [hprinted] at hreport; cases hreport⟩
    rcases disk_of_mem_outcomes h with hsame | ⟨settings, graph, hstarts, hbehaves, houtcome⟩
    · exact ⟨[], by rw [hsame, List.append_nil], hwhole (.inl rfl)⟩
    · obtain ⟨chunk, hcontent, hnil | ⟨final, hinvoke, hchunk⟩⟩ := houtcome.content_costDoc htarget
      · exact ⟨chunk, hcontent, hwhole (.inl hnil)⟩
      · have hreturns := hbehaves (questionFromArgv i.argv) recursionLimit
        rw [show graph (questionFromArgv i.argv) recursionLimit = .ok final from hinvoke] at hreturns
        obtain ⟨k, rfl⟩ := exists_completion_of_ainvokes hreturns
        exact ⟨chunk, hcontent, hwhole (.inr ⟨settings, k, hstarts, hchunk⟩)⟩

end

/-! ## A history of calls -/

/-- Calls of `main`, each on the disk that the one before it left and with a standard
    output of its own, with what they came to. -/
inductive Calls (outputsDir costDoc : Path) :
    Disk Exn → List (Invocation × MainOutcome) → Disk Exn → Prop where
  | nil (disk : Disk Exn) : Calls outputsDir costDoc disk [] disk
  | cons {d d' : Disk Exn} {i : Invocation} {stdout : Str → Except Exn Unit} {o : MainOutcome}
      {calls : List (Invocation × MainOutcome)} (houtputsDir : i.outputsDir = outputsDir)
      (hcostDoc : i.costDoc = costDoc) (hcall : o ∈ i.OutcomesOn stdout d)
      (hcalls : Calls outputsDir costDoc o.disk calls d') :
      Calls outputsDir costDoc d ((i, o) :: calls) d'

section
variable {outputsDir costDoc : Path} {disk after : Disk Exn}
variable {calls : List (Invocation × MainOutcome)}

/-- Calls do not touch symbolic links, so they do not change each other's paths. -/
theorem target_congr {d d' : Disk Exn} (h : d.resolve = d'.resolve) (i : Invocation) :
    i.target d = i.target d' := by
  simp only [Invocation.target, buildOutputPath, h]

theorem Calls.files_eq (h : Calls outputsDir costDoc disk calls after) {p : Path}
    (hcost : p ≠ costDoc) (htargets : ∀ c ∈ calls, c.1.target disk ≠ .ok p) :
    after.files p = disk.files p := by
  induction h with
  | nil _ => rfl
  | @cons d d' i stdout o calls houtputsDir hcostDoc hcall hcalls ih =>
    obtain ⟨hfirst, hrest⟩ := List.forall_mem_cons.mp htargets
    have hresolve := resolve_of_mem_outcomes hcall
    rw [ih fun c hc => target_congr hresolve c.1 ▸ hrest c hc,
      files_of_mem_outcomes hcall (hcostDoc ▸ hcost) hfirst]

/-- The cost document grows by one chunk a call. -/
theorem Calls.content_costDoc (h : Calls outputsDir costDoc disk calls after)
    (htargets : ∀ c ∈ calls, c.1.target disk ≠ .ok costDoc) :
    ∃ chunks, List.Forall₂ (fun c chunk => c.1.Adds c.2 chunk) calls chunks ∧
      after.content costDoc = disk.content costDoc ++ chunks.flatten := by
  induction h with
  | nil _ => exact ⟨[], .nil, by simp⟩
  | @cons d d' i stdout o calls houtputsDir hcostDoc hcall hcalls ih =>
    obtain ⟨hfirst, hrest⟩ := List.forall_mem_cons.mp htargets
    have hresolve := resolve_of_mem_outcomes hcall
    obtain ⟨chunk, hchunk, hadds⟩ := adds_of_mem_outcomes hcall (hcostDoc ▸ hfirst)
    obtain ⟨chunks, hall, hcontent⟩ := ih fun c hc => target_congr hresolve c.1 ▸ hrest c hc
    rw [hcostDoc] at hchunk
    exact ⟨chunk :: chunks, .cons hadds hall, by rw [hcontent, hchunk, List.flatten_cons,
      List.append_assoc]⟩

/-- What is printed stays on the disk until a later call has the same path. -/
theorem Calls.report_kept (h : Calls outputsDir costDoc disk calls after)
    {before later : List (Invocation × MainOutcome)} {i : Invocation} {o : MainOutcome}
    (hcalls : calls = before ++ (i, o) :: later) {report : Str} (hprinted : o.printed = some report)
    (hcost : i.target disk ≠ .ok costDoc)
    (hlater : ∀ c ∈ later, c.1.target disk ≠ i.target disk) :
    ∃ path b, i.target disk = .ok path ∧ report.encode = some b ∧ after.files path = some b := by
  induction h generalizing before with
  | nil _ => simp at hcalls
  | @cons d d' i' stdout o' calls houtputsDir hcostDoc hcall hrest ih =>
    have hresolve := resolve_of_mem_outcomes hcall
    cases before with
    | cons c before =>
      obtain ⟨-, rfl⟩ := List.cons.inj hcalls
      rw [← target_congr hresolve] at hcost ⊢
      exact ih rfl hcost fun c hc => by
        rw [target_congr hresolve c.1, target_congr hresolve i]
        exact hlater c hc
    | nil =>
      obtain ⟨hsame, rfl⟩ := List.cons.inj hcalls
      cases hsame
      obtain ⟨settings, k, ⟨hstarts, path, b, row, hpath, hb, -, hafter⟩, rfl⟩ :=
        delivers_of_printed hcall hprinted
      have htarget : i.target d = .ok path := hpath
      have hne : path ≠ costDoc := by
        rintro rfl
        exact hcost htarget
      refine ⟨path, b, htarget, hb, ?_⟩
      rw [hrest.files_eq hne fun c hc => by
        rw [target_congr hresolve, ← htarget]
        exact hlater c hc]
      rw [hafter, hcostDoc, Disk.store_files_of_ne _ _ hne, Disk.store_files_self]

end

/-- After any history of calls, whatever each of them came to: every file is what
    it was, but for the cost document and the reports' paths; the cost document
    has kept its content and gained one chunk a call; and a printed report is
    still at its path unless a later call has the same. -/
theorem calls_journal {outputsDir costDoc : Path} {disk after : Disk Exn}
    {calls : List (Invocation × MainOutcome)} (h : Calls outputsDir costDoc disk calls after)
    (htargets : ∀ c ∈ calls, c.1.target disk ≠ .ok costDoc) :
    (∀ p ≠ costDoc, (∀ c ∈ calls, c.1.target disk ≠ .ok p) → after.files p = disk.files p) ∧
    (∃ chunks, List.Forall₂ (fun c chunk => c.1.Adds c.2 chunk) calls chunks ∧
      after.content costDoc = disk.content costDoc ++ chunks.flatten) ∧
    ∀ before i o later report, calls = before ++ (i, o) :: later → o.printed = some report →
      (∀ c ∈ later, c.1.target disk ≠ i.target disk) →
        ∃ path b, i.target disk = .ok path ∧ report.encode = some b ∧ after.files path = some b := by
  refine ⟨fun p hcost hp => h.files_eq hcost hp, h.content_costDoc htargets,
    fun before i o later report hcalls hprinted hlater => ?_⟩
  have hcost : i.target disk ≠ .ok costDoc := htargets (i, o) (by rw [hcalls]; simp)
  exact h.report_kept hcalls hprinted hcost hlater

theorem target_pageCall :
    pageCall.target emptyDisk =
      .ok [lit "outputs", reportName (questionFromArgv pageCall.argv) pageCall.now] := by
  have hplain : PlainName (questionFromArgv pageCall.argv) pageCall.now pageCall.outputsDir emptyDisk :=
    fun _ _ => rfl
  exact hplain.buildOutputPath rfl

theorem target_pageCall_ne : pageCall.target emptyDisk ≠ .ok [lit "cost-breakdown.md"] := by
  rw [target_pageCall]
  simp

/-- Two calls, of which each prints its report. -/
theorem exists_calls_pageCall :
    ∃ o o' report report', Calls [lit "outputs"] [lit "cost-breakdown.md"] emptyDisk
      [(pageCall, o), (pageCall, o')] o'.disk ∧
      o.printed = some report ∧ o'.printed = some report' := by
  have hon (d : Disk Exn) : pageCall.OutcomesOn (fun _ => .ok ()) d = pageCall.Outcomes d :=
    pageCall.outcomesOn_of_accepts (fun _ => rfl) d
  obtain ⟨o, ho⟩ := pageCall.outcomes_nonempty emptyDisk
  obtain ⟨o', ho'⟩ := pageCall.outcomes_nonempty o.disk
  obtain ⟨-, k, -, hprinted⟩ := (ready_pageCall rfl).printed o ho
  rw [← hon] at ho
  obtain ⟨-, k', -, hprinted'⟩ := (ready_pageCall (resolve_of_mem_outcomes ho)).printed o' ho'
  rw [← hon] at ho'
  exact ⟨o, o', _, _, .cons rfl rfl ho (.cons rfl rfl ho' (.nil _)), hprinted, hprinted'⟩

omit [UnicodeData] in
/-- The same call, twice. -/
theorem calls_journal_page :
    ∃ o o', @Calls .basicLatin [lit "outputs"] [lit "cost-breakdown.md"] emptyDisk
        [(pageCall, o), (pageCall, o')] o'.disk ∧
      ∃ chunk chunk', @Invocation.Adds .basicLatin pageCall o chunk ∧
        @Invocation.Adds .basicLatin pageCall o' chunk' ∧
        o'.disk.content [lit "cost-breakdown.md"] = chunk ++ chunk' := by
  obtain ⟨o, o', -, -, hcalls, -⟩ := @exists_calls_pageCall .basicLatin
  obtain ⟨-, ⟨chunks, hall, hchunks⟩, -⟩ := @calls_journal .basicLatin _ _ _ _ _ hcalls
    (by simpa using @target_pageCall_ne .basicLatin)
  obtain ⟨chunk, rest, hchunk, hrest, rfl⟩ := List.forall₂_cons_left_iff.mp hall
  obtain ⟨chunk', last, hchunk', hlast, rfl⟩ := List.forall₂_cons_left_iff.mp hrest
  obtain rfl := List.forall₂_nil_left_iff.mp hlast
  exact ⟨o, o', hcalls, chunk, chunk', hchunk, hchunk', by simpa [Disk.content, emptyDisk] using hchunks⟩

end ResearchSynthesis
