-- SUMMARY: `main` with Langfuse and without its keys: when the two come to the same.
import ResearchSynthesis.Main.Cli
import ResearchSynthesis.Main.Naming
import ResearchSynthesis.Main.Saving
import ResearchSynthesis.Graph.Tracing

/-!
# Tracing is meant to be optional

`main` makes the Langfuse client in its `try` block, the nodes make theirs
before they call the model, and the `finally` clause flushes, none of it
guarded. `langfuseOptional_iff` says when that is harmless.
-/

namespace ResearchSynthesis
open Python StateGraph

variable [UnicodeData]

/-! ## The call without the keys -/

omit [UnicodeData] in
/-- The same call, with neither Langfuse key set. -/
def Invocation.withoutLangfuse (i : Invocation) : Invocation :=
  { i with settings := i.settings.map Settings.withoutLangfuse }

theorem ainvokes_untraced_iff {w : World} {question : Str} {limit : Nat}
    (h : Agree (buildGraph w) (buildGraph w.untraced) ResearchState.schema limit
      (init (buildGraph w) { question := some question })) {r : Except Exn ResearchState} :
    w.untraced.Ainvokes question limit r ↔ w.Ainvokes question limit r :=
  ainvokes_iff_of_agree h

/-- Without Langfuse a run that can decompose its question and make its clients can
    end in a state. -/
theorem exists_ainvokes_untraced {w : World} {question : Str}
    (hmodels : validateModels w.settings = .ok ()) {decomposed : DecomposedQuestion}
    (h : w.Decomposes question decomposed) (hclients : w.untraced.ClientsConstruct decomposed) :
    ∃ final, w.untraced.Ainvokes question recursionLimit (.ok final) := by
  have hlimit : 4 < recursionLimit := by decide
  obtain ⟨c, hreach, hdone⟩ :=
    exists_done_of_reaches (sound_untraced hmodels h hclients) hlimit .refl
  exact ⟨c.state, ainvokes_of_done hlimit hreach hdone⟩

namespace Invocation

variable {i : Invocation} {settings : Settings} {disk : Disk Exn}

theorem ainvokes_withoutLangfuse_iff {question : Str} {limit : Nat}
    {r : Except Exn ResearchState} :
    (i.withoutLangfuse.world settings.withoutLangfuse).Ainvokes question limit r ↔
      (i.world settings).untraced.Ainvokes question limit r :=
  (ainvokes_untraced_iff (agree_untraced_of_not_traced (not_traced_withoutLangfuse settings))).symm

/-! ## What `main` reads of the graph -/

/-- `main` calls the graph at most once. -/
theorem main_congr {graph graph' : Ainvoke}
    (h : graph (questionFromArgv i.argv) recursionLimit =
      graph' (questionFromArgv i.argv) recursionLimit) (disk : Disk Exn) :
    main i graph disk = main i graph' disk := by
  have hresearch (settings : Settings) :
      i.research settings graph disk = i.research settings graph' disk := by
    simp only [research, runResearch, researchCall, h]
    rfl
  simp only [main, attempt, hresearch]

theorem mem_outcomes_iff (hsettings : i.settings = .ok settings) {outcome : MainOutcome} :
    outcome ∈ i.Outcomes disk ↔
      ∃ r, (i.world settings).Ainvokes (questionFromArgv i.argv) recursionLimit r ∧
        outcome = main i (fun _ _ => r) disk := by
  constructor
  · rintro ⟨graph, hgraph, rfl⟩
    exact ⟨_, hgraph settings hsettings _ _, main_congr rfl disk⟩
  · rintro ⟨r, hr, rfl⟩
    obtain ⟨graph, hgraph, hcall⟩ := exists_behaves hr
    refine ⟨graph, fun settings' hsettings' => ?_, main_congr hcall.symm disk⟩
    obtain rfl := Except.ok.inj (hsettings.symm.trans hsettings')
    exact hgraph

theorem outcomes_nonempty (i : Invocation) (disk : Disk Exn) : (i.Outcomes disk).Nonempty := by
  cases hsettings : i.settings with
  | error e =>
    refine ⟨_, fun _ _ => .error e, fun settings h => ?_, rfl⟩
    rw [hsettings] at h
    cases h
  | ok settings =>
    obtain ⟨r, hr⟩ := exists_ainvokes (i.world settings) (questionFromArgv i.argv) recursionLimit
    exact ⟨_, (mem_outcomes_iff hsettings).mpr ⟨r, hr, rfl⟩⟩

/-- Where all behaviours come to the same, that is the one outcome. -/
theorem outcomes_eq_singleton {outcome : MainOutcome}
    (h : ∀ graph, (∀ settings, i.settings = .ok settings → (i.world settings).Behaves graph) →
      main i graph disk = outcome) : i.Outcomes disk = {outcome} := by
  have hall : ∀ o ∈ i.Outcomes disk, o = outcome := by
    rintro _ ⟨graph, hgraph, rfl⟩
    exact h graph hgraph
  exact Set.eq_singleton_iff_nonempty_unique_mem.mpr ⟨i.outcomes_nonempty disk, hall⟩

/-! ## The stages of `main` -/

/-- The call gets as far as making the Langfuse client. -/
structure Starts (i : Invocation) (settings : Settings) : Prop where
  question : questionFromArgv i.argv ≠ []
  loaded : i.settings = .ok settings
  models : validateModels settings = .ok ()

theorem Starts.withoutLangfuse (h : i.Starts settings) :
    i.withoutLangfuse.Starts settings.withoutLangfuse where
  question := h.question
  loaded := by rw [Invocation.withoutLangfuse, h.loaded]; rfl
  models := h.models

/-- A call that stops earlier does not depend on Langfuse. -/
theorem exists_main_of_not_starts (h : ∀ settings, ¬ i.Starts settings) (disk : Disk Exn) :
    ∃ outcome, ∀ graph, main i graph disk = outcome ∧ main i.withoutLangfuse graph disk = outcome := by
  by_cases hquestion : questionFromArgv i.argv = []
  · exact ⟨_, fun _ => ⟨if_pos hquestion, if_pos hquestion⟩⟩
  cases hsettings : i.settings with
  | error e =>
    refine ⟨⟨.ok 1, none, disk⟩, fun graph => ⟨?_, ?_⟩⟩
    · simp [main, hquestion, attempt, hsettings, finish]
    · simp [main, hquestion, attempt, hsettings, finish, Invocation.withoutLangfuse, Except.map]
  | ok settings =>
    cases hmodels : validateModels settings with
    | ok _ => exact absurd ⟨hquestion, hsettings, hmodels⟩ (h settings)
    | error e =>
      have hmodels' : validateModels settings.withoutLangfuse = .error e := hmodels
      refine ⟨⟨.ok 1, none, disk⟩, fun graph => ⟨?_, ?_⟩⟩
      · simp [main, hquestion, attempt, hsettings, hmodels, finish]
      · simp [main, hquestion, attempt, hsettings, hmodels', finish, Invocation.withoutLangfuse,
          Except.map]

theorem Starts.main_of_client_error (h : i.Starts settings) (htraced : settings.Traced) {e : Exn}
    (hclient : i.langfuse.client = .error e) (graph : Ainvoke) :
    main i graph disk = ⟨.ok 1, none, disk⟩ := by
  simp [main, h.question, attempt, h.loaded, h.models, getLangfuseClient_of_traced htraced,
    hclient, Except.map, finish]

theorem Starts.main_of_client (h : i.Starts settings) (htraced : settings.Traced)
    (hclient : i.langfuse.client = .ok ()) (graph : Ainvoke) :
    main i graph disk = i.finish (some ()) (i.research settings graph disk) := by
  simp [main, h.question, attempt, h.loaded, h.models, getLangfuseClient_of_traced htraced,
    hclient, Except.map]

theorem Starts.main_of_not_traced (h : i.Starts settings) (htraced : ¬ settings.Traced)
    (graph : Ainvoke) : main i graph disk = i.finish none (i.research settings graph disk) := by
  simp [main, h.question, attempt, h.loaded, h.models, getLangfuseClient_of_not_traced htraced]

omit [UnicodeData] in
@[simp] theorem disk_finish (i : Invocation) (client : Option Unit)
    (result : Except Exn (Path × ResearchState) × Disk Exn) :
    (i.finish client result).disk = result.2 := by
  unfold finish
  split
  · rfl
  · split <;> rfl

omit [UnicodeData] in
/-- Only `flush` makes `main` raise. -/
theorem exit_finish (i : Invocation) {client : Option Unit} (h : client.isSome → i.flush = .ok ())
    (result : Except Exn (Path × ResearchState) × Disk Exn) :
    ∃ code, (i.finish client result).exit = .ok code := by
  have hflush : (if client.isSome then i.flush else .ok ()) = .ok () := by
    split
    · next hsome => exact h hsome
    · rfl
  rw [finish, hflush]
  cases result.1 <;> exact ⟨_, rfl⟩

/-- A client that is made and flushed leaves no trace. -/
theorem Starts.main_withoutLangfuse (h : i.Starts settings)
    (hclient : settings.Traced → i.langfuse.client = .ok () ∧ i.flush = .ok ()) (graph : Ainvoke) :
    main i graph disk = main i.withoutLangfuse graph disk := by
  rw [h.withoutLangfuse.main_of_not_traced (not_traced_withoutLangfuse settings)]
  by_cases htraced : settings.Traced
  · rw [h.main_of_client htraced (hclient htraced).1, finish, (hclient htraced).2]
    rfl
  · rw [h.main_of_not_traced htraced]
    rfl

theorem Starts.outcomes_withoutLangfuse (h : i.Starts settings)
    (hclient : settings.Traced → i.langfuse.client = .ok () ∧ i.flush = .ok ())
    (hagree : ∀ limit, Agree (buildGraph (i.world settings)) (buildGraph (i.world settings).untraced)
      ResearchState.schema limit
      (init (buildGraph (i.world settings)) { question := some (questionFromArgv i.argv) })) :
    i.Outcomes disk = i.withoutLangfuse.Outcomes disk := by
  ext outcome
  rw [mem_outcomes_iff h.loaded, mem_outcomes_iff h.withoutLangfuse.loaded]
  refine exists_congr fun r => and_congr ?_ ?_
  · rw [ainvokes_withoutLangfuse_iff]
    exact (ainvokes_untraced_iff (hagree _)).symm
  · rw [h.main_withoutLangfuse hclient]

/-! ## Runs that fail anyway -/

/-- The run fails before anything is stored, with Langfuse or without. -/
inductive FailsAnyway (i : Invocation) (settings : Settings) (disk : Disk Exn) : Prop where
  | mkdir {e : Exn} (h : i.mkdir = .error e)
  | decompose
      (h : ∀ decomposed, ¬ (i.world settings).Decomposes (questionFromArgv i.argv) decomposed)
  /-- A chat model or a search client cannot be made. -/
  | clients {decomposed : DecomposedQuestion}
      (hdecomposes : (i.world settings).Decomposes (questionFromArgv i.argv) decomposed)
      (h : ¬ (i.world settings).untraced.ClientsConstruct decomposed)
  | path {e : Exn}
      (h : buildOutputPath (questionFromArgv i.argv) i.now i.outputsDir disk = .error e)
  | report {e : Exn} (h : i.reportFile = .refusesOpen e)

theorem research_of_failsEarly {graph : Ainvoke}
    (h : FailsEarly (i.researchCall settings graph) i.outputsDir disk) :
    ∃ e, i.research settings graph disk = (.error e, disk) := by
  cases hmkdir : i.mkdir with
  | error e => exact ⟨e, by rw [research, hmkdir]⟩
  | ok _ =>
    obtain ⟨⟨e, he⟩, hdisk⟩ := (runResearch_outcome _ i.outputsDir i.costDoc disk).untouched h
    exact ⟨e, by rw [research, hmkdir]; exact Prod.ext he hdisk⟩

theorem research_stored {graph : Ainvoke} {final : ResearchState} {path : Path}
    (hmkdir : i.mkdir = .ok ())
    (hcall : graph (questionFromArgv i.argv) recursionLimit = .ok final)
    (hpath : buildOutputPath (questionFromArgv i.argv) i.now i.outputsDir disk = .ok path)
    (hopen : ∀ e, i.reportFile ≠ .refusesOpen e) :
    (i.research settings graph disk).2.files path ≠ none := by
  have hlate : ¬FailsEarly (i.researchCall settings graph) i.outputsDir disk :=
    not_failsEarly hcall hpath hopen
  rw [research, hmkdir]
  exact (runResearch_outcome _ i.outputsDir i.costDoc disk).stored hlate hpath

/-- A graph that returns has a decomposition and all its clients. -/
theorem research_of_not_clientsConstruct {graph : Ainvoke}
    (hgraph : (i.world settings).Behaves graph)
    (h : ∀ decomposed, (i.world settings).Decomposes (questionFromArgv i.argv) decomposed →
      ¬ (i.world settings).ClientsConstruct decomposed) :
    ∃ e, i.research settings graph disk = (.error e, disk) := by
  refine research_of_failsEarly (.inl ?_)
  have hr := hgraph (questionFromArgv i.argv) recursionLimit
  cases hcall : graph (questionFromArgv i.argv) recursionLimit with
  | error e => exact ⟨e, hcall⟩
  | ok final =>
    rw [hcall] at hr
    cases hr with
    | returns hreach hdone _ =>
      obtain ⟨decomposed, hdecomposes, hclients⟩ := clientsConstruct_of_done hreach hdone
      exact absurd hclients (h decomposed hdecomposes)

theorem FailsAnyway.research (h : i.FailsAnyway settings disk) {graph : Ainvoke}
    (hgraph : (i.world settings).Behaves graph) :
    ∃ e, i.research settings graph disk = (.error e, disk) := by
  cases h with
  | mkdir h => exact ⟨_, by rw [Invocation.research, h]⟩
  | decompose h =>
    exact research_of_not_clientsConstruct hgraph fun d hd => absurd hd (h d)
  | clients hdecomposes h =>
    refine research_of_not_clientsConstruct hgraph fun d hd hclients => ?_
    obtain rfl := hd.unique hdecomposes
    exact h hclients.untraced
  | path h => exact research_of_failsEarly (.inr (.inl ⟨_, h⟩))
  | report h => exact research_of_failsEarly (.inr (.inr ⟨_, h⟩))

theorem FailsAnyway.outcomes (h : i.FailsAnyway settings disk) (hstarts : i.Starts settings)
    (hflush : settings.Traced → i.langfuse.client = .ok () → i.flush = .ok ()) :
    i.Outcomes disk = {⟨.ok 1, none, disk⟩} := by
  refine outcomes_eq_singleton fun graph hgraph => ?_
  obtain ⟨e, hresearch⟩ := h.research (hgraph settings hstarts.loaded)
  by_cases htraced : settings.Traced
  · cases hclient : i.langfuse.client with
    | error e => exact hstarts.main_of_client_error htraced hclient graph
    | ok _ =>
      rw [hstarts.main_of_client htraced hclient, hresearch, finish, hflush htraced hclient]
      rfl
  · rw [hstarts.main_of_not_traced htraced, hresearch]
    rfl

theorem FailsAnyway.withoutLangfuse (h : i.FailsAnyway settings disk) :
    i.withoutLangfuse.FailsAnyway settings.withoutLangfuse disk := by
  cases h with
  | mkdir h => exact .mkdir h
  | decompose h => exact .decompose h
  | clients hdecomposes h => exact .clients hdecomposes h
  | path h => exact .path h
  | report h => exact .report h

/-! ## When Langfuse is optional -/

/-- `main` comes to the same exit code, printed report and disk as without the
    keys, over all behaviours of the graph and whatever files there are. -/
def LangfuseOptional (i : Invocation) (disk : Disk Exn) : Prop :=
  ∀ files, i.Outcomes { disk with files } = i.withoutLangfuse.Outcomes { disk with files }

/-- The client, if it is made, is flushed. It is made, and so is the callback of
    every node, unless the run fails anyway. -/
structure LangfuseHarmless (i : Invocation) (settings : Settings) (disk : Disk Exn) : Prop where
  flush : i.langfuse.client = .ok () → i.flush = .ok ()
  nodes : i.FailsAnyway settings disk ∨
    i.langfuse.client = .ok () ∧ ∃ decomposed,
      (i.world settings).Decomposes (questionFromArgv i.argv) decomposed ∧
        (i.world settings).NodesConstruct decomposed

theorem langfuseOptional_of_harmless
    (h : ∀ settings, i.Starts settings → settings.Traced → i.LangfuseHarmless settings disk) :
    i.LangfuseOptional disk := by
  intro files
  by_cases hstarts : ∃ settings, i.Starts settings
  · obtain ⟨settings, hstarts⟩ := hstarts
    by_cases htraced : settings.Traced
    · obtain ⟨hflush, hfails | ⟨hclient, decomposed, hdecomposes, hnodes⟩⟩ := h settings hstarts htraced
      · have hfails : i.FailsAnyway settings { disk with files } := by
          cases hfails with
          | mkdir h => exact .mkdir h
          | decompose h => exact .decompose h
          | clients hdecomposes h => exact .clients hdecomposes h
          | path h => exact .path h
          | report h => exact .report h
        rw [hfails.outcomes hstarts fun _ => hflush,
          hfails.withoutLangfuse.outcomes hstarts.withoutLangfuse fun _ => hflush]
      · exact hstarts.outcomes_withoutLangfuse (fun _ => ⟨hclient, hflush hclient⟩)
          fun _ => agree_untraced_of_nodesConstruct hdecomposes hnodes
    · exact hstarts.outcomes_withoutLangfuse (fun h => absurd h htraced)
        fun _ => agree_untraced_of_not_traced htraced
  · obtain ⟨outcome, houtcome⟩ :=
      exists_main_of_not_starts (fun settings h => hstarts ⟨settings, h⟩) { disk with files }
    rw [outcomes_eq_singleton fun graph _ => (houtcome graph).1,
      outcomes_eq_singleton fun graph _ => (houtcome graph).2]

theorem LangfuseOptional.flush (h : i.LangfuseOptional disk) (hstarts : i.Starts settings)
    (htraced : settings.Traced) (hclient : i.langfuse.client = .ok ()) : i.flush = .ok () := by
  obtain ⟨outcome, hmem⟩ := i.outcomes_nonempty disk
  have hmem' : outcome ∈ i.withoutLangfuse.Outcomes disk := h disk.files ▸ hmem
  obtain ⟨graph, -, hkeyed⟩ := hmem
  obtain ⟨graph', -, hkeyless⟩ := hmem'
  have hexit : ∃ code, outcome.exit = .ok code := by
    rw [hkeyless, hstarts.withoutLangfuse.main_of_not_traced (not_traced_withoutLangfuse settings)]
    exact exit_finish _ (by simp) _
  cases hflush : i.flush with
  | ok _ => rfl
  | error e =>
    obtain ⟨code, hcode⟩ := hexit
    rw [hkeyed, hstarts.main_of_client htraced hclient] at hcode
    simp [finish, hflush] at hcode

/-- What a run that does not fail anyway has to rely on. -/
structure CanStore (i : Invocation) (settings : Settings) (disk : Disk Exn) (path : Path)
    (decomposed : DecomposedQuestion) : Prop where
  mkdir : i.mkdir = .ok ()
  decomposes : (i.world settings).Decomposes (questionFromArgv i.argv) decomposed
  clients : (i.world settings).untraced.ClientsConstruct decomposed
  path : buildOutputPath (questionFromArgv i.argv) i.now i.outputsDir disk = .ok path
  report : ∀ e, i.reportFile ≠ .refusesOpen e

theorem exists_canStore (h : ¬ i.FailsAnyway settings disk) :
    ∃ path decomposed, i.CanStore settings disk path decomposed := by
  cases hmkdir : i.mkdir with
  | error e => exact absurd (.mkdir hmkdir) h
  | ok _ =>
    cases hpath : buildOutputPath (questionFromArgv i.argv) i.now i.outputsDir disk with
    | error e => exact absurd (.path hpath) h
    | ok path =>
      obtain ⟨decomposed, hdecomposes⟩ :
          ∃ decomposed, (i.world settings).Decomposes (questionFromArgv i.argv) decomposed := by
        by_contra hnone
        exact h (.decompose (not_exists.mp hnone))
      have hclients : (i.world settings).untraced.ClientsConstruct decomposed := by
        by_contra hnone
        exact h (.clients hdecomposes hnone)
      exact ⟨path, decomposed, hmkdir, hdecomposes, hclients, hpath, fun e he => h (.report he)⟩

/-- Without the keys, some run stores a report. -/
theorem CanStore.exists_stored {path : Path} {decomposed : DecomposedQuestion}
    (h : i.CanStore settings disk path decomposed) (hstarts : i.Starts settings) :
    ∃ outcome ∈ i.withoutLangfuse.Outcomes disk, outcome.disk.files path ≠ none := by
  obtain ⟨final, hfinal⟩ := exists_ainvokes_untraced hstarts.models h.decomposes h.clients
  refine ⟨_, (mem_outcomes_iff hstarts.withoutLangfuse.loaded).mpr
    ⟨_, ainvokes_withoutLangfuse_iff.mpr hfinal, rfl⟩, ?_⟩
  rw [hstarts.withoutLangfuse.main_of_not_traced (not_traced_withoutLangfuse settings),
    disk_finish]
  exact research_stored h.mkdir rfl h.path h.report

/-- With the keys, a run that changes the disk has got its client and all callbacks. -/
theorem Starts.constructs_of_stored (hstarts : i.Starts settings) (htraced : settings.Traced)
    {outcome : MainOutcome} (hmem : outcome ∈ i.Outcomes disk) (hstored : outcome.disk ≠ disk) :
    i.langfuse.client = .ok () ∧ ∃ decomposed,
      (i.world settings).Decomposes (questionFromArgv i.argv) decomposed ∧
        (i.world settings).NodesConstruct decomposed := by
  obtain ⟨r, hr, rfl⟩ := (mem_outcomes_iff hstarts.loaded).mp hmem
  cases hclient : i.langfuse.client with
  | error e =>
    rw [hstarts.main_of_client_error htraced hclient] at hstored
    exact absurd rfl hstored
  | ok _ =>
    cases hr with
    | returns hreach hdone _ =>
      obtain ⟨decomposed, hdecomposes, hclients⟩ := clientsConstruct_of_done hreach hdone
      exact ⟨rfl, decomposed, hdecomposes, hclients.nodesConstruct htraced⟩
    | @raises _ _ e _ _ _ =>
      have hearly : FailsEarly (i.researchCall settings fun _ _ => .error e) i.outputsDir disk :=
        .inl ⟨e, rfl⟩
      obtain ⟨e', hresearch⟩ := research_of_failsEarly hearly
      rw [hstarts.main_of_client htraced hclient, disk_finish, hresearch] at hstored
      exact absurd rfl hstored

/-- A run that can store its report without the keys has to store it with them. -/
theorem LangfuseOptional.nodes (h : i.LangfuseOptional disk) (hstarts : i.Starts settings)
    (htraced : settings.Traced) (hfails : ¬ i.FailsAnyway settings disk) :
    i.langfuse.client = .ok () ∧ ∃ decomposed,
      (i.world settings).Decomposes (questionFromArgv i.argv) decomposed ∧
        (i.world settings).NodesConstruct decomposed := by
  obtain ⟨path, decomposed, hmkdir, hdecomposes, hclients, hpath, hreport⟩ := exists_canStore hfails
  -- On a disk without files, a report that is stored is a change.
  let empty : Disk Exn := { disk with files := fun _ => none }
  have hstore : i.CanStore settings empty path decomposed :=
    ⟨hmkdir, hdecomposes, hclients, hpath, hreport⟩
  obtain ⟨outcome, hmem, hstored⟩ := hstore.exists_stored hstarts
  rw [← h] at hmem
  refine hstarts.constructs_of_stored htraced hmem fun hsame => ?_
  rw [hsame] at hstored
  exact hstored rfl

/-- Langfuse is optional in a call with both keys exactly when the client it makes
    is flushed and, unless the run fails anyway, the client and the callbacks of
    all nodes are made. It is optional in every other call. -/
theorem langfuseOptional_iff (i : Invocation) (disk : Disk Exn) :
    i.LangfuseOptional disk ↔
      ∀ settings, i.Starts settings → settings.Traced → i.LangfuseHarmless settings disk := by
  refine ⟨fun h settings hstarts htraced => ⟨h.flush hstarts htraced, ?_⟩,
    langfuseOptional_of_harmless⟩
  by_cases hfails : i.FailsAnyway settings disk
  · exact .inl hfails
  · exact .inr (h.nodes hstarts htraced hfails)

end Invocation

/-! ## A run that Langfuse takes down -/

omit [UnicodeData] in
def tracedSettings : Settings :=
  { keyedSettings with
    langfusePublicKey := some (lit "public"), langfuseSecretKey := some (lit "secret") }

omit [UnicodeData] in
/-- A call with both keys, in which only Langfuse can fail. -/
def tracedCall (langfuse : Langfuse) (flush : Except Exn Unit) : Invocation where
  argv := [lit "main.py", lit "question"]
  settings := .ok tracedSettings
  langfuse
  flush
  mkdir := .ok ()
  outputsDir := [lit "outputs"]
  costDoc := [lit "cost-breakdown.md"]
  now := (answeredCall [] {} .accepts).now
  latencyS := 1
  reportFile := .accepts
  costFile := .accepts
  decomposeCall := sunnyWorld.decomposeCall
  branch := sunnyWorld.branch
  assembleCall := sunnyWorld.assembleCall

theorem not_failsAnyway_tracedCall (langfuse : Langfuse) (flush : Except Exn Unit) :
    ¬ (tracedCall langfuse flush).FailsAnyway tracedSettings emptyDisk := by
  intro h
  cases h with
  | mkdir h => cases h
  | decompose h => exact h _ ⟨_, rfl, rfl⟩
  | clients hdecomposes h => exact h ⟨⟨_, rfl⟩, fun _ _ => ⟨_, rfl⟩, ⟨_, rfl⟩⟩
  | path h =>
    have hplain : PlainName (questionFromArgv (tracedCall langfuse flush).argv)
        (tracedCall langfuse flush).now [lit "outputs"] emptyDisk := fun _ _ => rfl
    cases h.symm.trans (hplain.buildOutputPath rfl)
  | report h => cases h

omit [UnicodeData] in
/-- Where the client cannot be made, the run is over before the graph is built. -/
theorem not_langfuseOptional_client_down :
    ¬ @Invocation.LangfuseOptional .basicLatin
      (tracedCall { client := .error ⟨.other, lit "Langfuse is down"⟩ } (.ok ())) emptyDisk := by
  intro h
  have hstarts : @Invocation.Starts .basicLatin
      (tracedCall { client := .error ⟨.other, lit "Langfuse is down"⟩ } (.ok ())) tracedSettings :=
    @Invocation.Starts.mk .basicLatin _ _ (by decide) rfl
      (@validateModels_of_default .basicLatin _ rfl rfl)
  obtain ⟨hclient, -⟩ :=
    @Invocation.LangfuseOptional.nodes .basicLatin _ _ _ h hstarts ⟨rfl, rfl⟩
      (@not_failsAnyway_tracedCall .basicLatin _ _)
  cases hclient

end ResearchSynthesis
