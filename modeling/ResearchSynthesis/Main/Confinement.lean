-- SUMMARY: What `main` keeps to itself: the keys it was given, and which searches needed their second call.
import ResearchSynthesis.Agents.SearchContract
import ResearchSynthesis.Main.Contract

/-!
# What does not show

The keys of the settings go to the constructors of the clients. `Invocation.Alike`
relates two calls with other keys that the constructors treat the same, whose
searches came by the same answers in other ways. `outcomes_eq_of_alike` says that
nobody can tell them apart: neither by the exit code, nor by what is printed, nor
by the disk.
-/

namespace ResearchSynthesis
open Python StateGraph

/-! ## Calls that are alike -/

/-- The settings differ in their credentials and hosts, and agree on whether
    Langfuse is configured. -/
structure Settings.Alike (s t : Settings) : Prop where
  supervisorModel : s.supervisorModel = t.supervisorModel
  workerModel : s.workerModel = t.workerModel
  maxSubQuestions : s.maxSubQuestions = t.maxSubQuestions
  traced : (isSet s.langfusePublicKey && isSet s.langfuseSecretKey) =
    (isSet t.langfusePublicKey && isSet t.langfuseSecretKey)

theorem Settings.Alike.symm {s t : Settings} (h : s.Alike t) : t.Alike s :=
  ⟨h.supervisorModel.symm, h.workerModel.symm, h.maxSubQuestions.symm, h.traced.symm⟩

/-- Two calls under two settings: the chat models are built or refused alike, and
    answer alike. -/
structure LlmCall.Alike {α : Type} (s t : Settings) (call call' : LlmCall α) : Prop where
  chatModel : ∀ modelName maxTokens, buildChatModel s modelName maxTokens call.chatModel =
    buildChatModel t modelName maxTokens call'.chatModel
  langfuse : call.langfuse = call'.langfuse
  invoke : call.invoke = call'.invoke
  latencyMs : call.latencyMs = call'.latencyMs

theorem LlmCall.Alike.symm {α : Type} {s t : Settings} {call call' : LlmCall α}
    (h : call.Alike s t call') : call'.Alike t s call :=
  ⟨fun m n => (h.chatModel m n).symm, h.langfuse.symm, h.invoke.symm, h.latencyMs.symm⟩

variable [UnicodeData]

/-- The branches get the same clients and the same answers, after one call or
    after two. -/
structure Branch.Alike (s t : Settings) (b c : Branch) : Prop where
  tavilyClient : b.tavilyClient s.tavilyApiKey = c.tavilyClient t.tavilyApiKey
  haiku : b.haiku.Alike s t c.haiku
  results : ∀ q, (runTavilySearch q b.tavily).results = (runTavilySearch q c.tavily).results
  error : ∀ q, (runTavilySearch q b.tavily).error = (runTavilySearch q c.tavily).error

theorem Branch.Alike.symm {s t : Settings} {b c : Branch} (h : b.Alike s t c) : c.Alike t s b :=
  ⟨h.tavilyClient.symm, h.haiku.symm, fun q => (h.results q).symm, fun q => (h.error q).symm⟩

structure World.Alike (w w' : World) : Prop where
  settings : w.settings.Alike w'.settings
  decomposeCall : w.decomposeCall.Alike w.settings w'.settings w'.decomposeCall
  branch : ∀ n, (w.branch n).Alike w.settings w'.settings (w'.branch n)
  assembleCall : w.assembleCall.Alike w.settings w'.settings w'.assembleCall

theorem World.Alike.symm {w w' : World} (h : w.Alike w') : w'.Alike w :=
  ⟨h.settings.symm, h.decomposeCall.symm, fun n => (h.branch n).symm, h.assembleCall.symm⟩

structure Invocation.Alike (i j : Invocation) : Prop where
  argv : i.argv = j.argv
  settings : Option.Rel (fun s t => (i.world s).Alike (j.world t)) i.settings.toOption
    j.settings.toOption
  langfuse : i.langfuse = j.langfuse
  flush : i.flush = j.flush
  mkdir : i.mkdir = j.mkdir
  outputsDir : i.outputsDir = j.outputsDir
  costDoc : i.costDoc = j.costDoc
  now : i.now = j.now
  latencyS : i.latencyS = j.latencyS
  reportFile : i.reportFile = j.reportFile
  costFile : i.costFile = j.costFile

/-! ## The nodes of alike worlds -/

section
variable {s t : Settings}

omit [UnicodeData] in
theorem getLangfuseClient_congr (h : s.Alike t) (langfuse : Langfuse) :
    getLangfuseClient s langfuse = getLangfuseClient t langfuse := by
  unfold getLangfuseClient
  rw [h.traced]

omit [UnicodeData] in
theorem langfuseConfig_congr (h : s.Alike t) (langfuse : Langfuse) :
    langfuseConfig s langfuse = langfuseConfig t langfuse := by
  unfold langfuseConfig
  rw [getLangfuseClient_congr h]

omit [UnicodeData] in
theorem setup_congr (h : s.Alike t) {α : Type} {call call' : LlmCall α}
    (hcall : call.Alike s t call') (modelName : Str) (maxTokens : Nat) :
    call.setup s modelName maxTokens = call'.setup t modelName maxTokens := by
  unfold LlmCall.setup
  rw [hcall.chatModel, hcall.langfuse, langfuseConfig_congr h]

theorem decomposeNode_congr (h : s.Alike t) {call call' : LlmCall (IncludeRaw DecomposedQuestion)}
    (hcall : call.Alike s t call') : decomposeNode s call = decomposeNode t call' := by
  funext state
  simp only [decomposeNode, runDecompose, LlmCall.ainvoke, setup_congr h hcall, h.supervisorModel,
    hcall.invoke, hcall.latencyMs]

theorem assembleNode_congr (h : s.Alike t) {call call' : LlmCall (IncludeRaw AssembledReport)}
    (hcall : call.Alike s t call') : assembleNode s call = assembleNode t call' := by
  funext state
  simp only [assembleNode, runAssemble, LlmCall.ainvoke, setup_congr h hcall, h.supervisorModel,
    hcall.invoke, hcall.latencyMs]

theorem outcome_researchNode_congr {b c : Branch} (h : s.Alike t) (hbranch : b.Alike s t c)
    (payload : Payload) :
    (researchNode s b payload).outcome = (researchNode t c payload).outcome := by
  have hclients : b.clients s = c.clients t := by
    unfold Branch.clients
    rw [hbranch.tavilyClient, h.workerModel, setup_congr h hbranch.haiku]
  have hresult : searchResultOf payload b.tavily = searchResultOf payload c.tavily := by
    simp only [searchResultOf, hbranch.results, hbranch.error]
  simp only [outcome_researchNode, outcome_runSummarize, hclients, hresult, h.workerModel,
    hbranch.haiku.invoke, hbranch.haiku.latencyMs]

omit [UnicodeData] in
theorem fanOutResearch_congr (h : s.Alike t) : fanOutResearch s = fanOutResearch t := by
  funext state
  unfold fanOutResearch
  rw [h.maxSubQuestions]

end

/-- Alike worlds have one graph. -/
theorem World.Alike.buildGraph_eq {w w' : World} (h : w.Alike w') : buildGraph w = buildGraph w' := by
  have hexec : w.exec = w'.exec := by
    funext node state payload
    unfold World.exec
    cases node with
    | decompose => simp only [World.call, decomposeNode_congr h.settings h.decomposeCall]
    | research =>
      cases payload with
      | none => rfl
      | some payload => exact outcome_researchNode_congr h.settings (h.branch payload.index) payload
    | assemble => simp only [World.call, assembleNode_congr h.settings h.assembleCall]
    | reporter => rfl
  unfold buildGraph
  rw [hexec, fanOutResearch_congr h.settings]

theorem World.Alike.behaves {w w' : World} (h : w.Alike w') {graph : Ainvoke}
    (hgraph : w.Behaves graph) : w'.Behaves graph := by
  intro question limit
  have hcall := hgraph question limit
  generalize graph question limit = r at hcall ⊢
  cases hcall with
  | returns hreach hdone hlimit =>
    rw [h.buildGraph_eq] at hreach
    exact .returns hreach hdone hlimit
  | raises hreach hfails he =>
    rw [h.buildGraph_eq] at hreach hfails
    exact .raises hreach hfails he

/-! ## The stages of alike calls -/

namespace Invocation.Alike

variable {i j : Invocation} {s t : Settings}

theorem symm (h : i.Alike j) : j.Alike i where
  argv := h.argv.symm
  settings := by
    have hsettings := h.settings
    generalize i.settings.toOption = a at hsettings ⊢
    generalize j.settings.toOption = b at hsettings ⊢
    cases hsettings with
    | none => exact .none
    | some hst => exact .some hst.symm
  langfuse := h.langfuse.symm
  flush := h.flush.symm
  mkdir := h.mkdir.symm
  outputsDir := h.outputsDir.symm
  costDoc := h.costDoc.symm
  now := h.now.symm
  latencyS := h.latencyS.symm
  reportFile := h.reportFile.symm
  costFile := h.costFile.symm

theorem research_eq (h : i.Alike j) (hst : s.Alike t) (graph : Ainvoke) (disk : Disk Exn) :
    i.research s graph disk = j.research t graph disk := by
  have hrow (final : ResearchState) :
      (i.researchCall s graph).costRow final = (j.researchCall t graph).costRow final := by
    simp only [ResearchCall.costRow, researchCall, h.now, h.argv, h.latencyS, hst.maxSubQuestions]
  unfold Invocation.research
  rw [h.mkdir, h.outputsDir, h.costDoc]
  cases j.mkdir with
  | error e => rfl
  | ok _ =>
    dsimp only
    unfold runResearch
    simp only [hrow]
    simp only [researchCall, h.argv, h.now, h.reportFile, h.costFile]

theorem main_eq (h : i.Alike j) (graph : Ainvoke) (disk : Disk Exn) :
    main i graph disk = main j graph disk := by
  have hfinish (client : Option Unit) (result : Except Exn (Path × ResearchState) × Disk Exn) :
      i.finish client result = j.finish client result := by
    unfold Invocation.finish
    rw [h.flush]
  have hsettings := h.settings
  unfold main attempt
  rw [h.argv]
  cases hi : i.settings with
  | error e =>
    cases hj : j.settings with
    | error e' => simp [Invocation.finish]
    | ok t =>
      rw [hi, hj] at hsettings
      cases hsettings
  | ok s =>
    cases hj : j.settings with
    | error e' =>
      rw [hi, hj] at hsettings
      cases hsettings
    | ok t =>
      rw [hi, hj] at hsettings
      cases hsettings with
      | some hworld =>
        have hst : s.Alike t := hworld.settings
        have hmodels : validateModels s = validateModels t := by
          unfold validateModels
          rw [hst.supervisorModel, hst.workerModel]
        simp only [hmodels, getLangfuseClient_congr hst, h.langfuse, h.research_eq hst, hfinish]

theorem mem_outcomes (h : i.Alike j) {disk : Disk Exn} {o : MainOutcome}
    (ho : o ∈ i.Outcomes disk) : o ∈ j.Outcomes disk := by
  obtain ⟨graph, hgraph, rfl⟩ := ho
  refine ⟨graph, fun t hj => ?_, h.main_eq graph disk⟩
  have hsettings := h.settings
  cases hi : i.settings with
  | error e =>
    rw [hi, hj] at hsettings
    cases hsettings
  | ok s =>
    rw [hi, hj] at hsettings
    cases hsettings with
    | some hworld => exact hworld.behaves (hgraph s hi)

end Invocation.Alike

/-- A key shows in whether its client can be made, and in nothing else, and neither
    does a search that was tried twice: alike calls have the same outcomes. -/
theorem outcomes_eq_of_alike {i j : Invocation} (h : i.Alike j) (disk : Disk Exn) :
    i.Outcomes disk = j.Outcomes disk :=
  Set.ext fun _ => ⟨h.mem_outcomes, h.symm.mem_outcomes⟩

omit [UnicodeData] in
/-- What making a client does that takes ASCII keys. -/
def asciiKey (key : Str) : Except Exn Unit :=
  if key.all (·.toNat < 128) then .ok () else .error unicodeEncodeError

omit [UnicodeData] in
/-- `keyedSettings` with other keys. -/
def rekeyedSettings : Settings :=
  { keyedSettings with
    anthropicApiKey := lit "another key"
    tavilyApiKey := lit "one more key" }

omit [UnicodeData] in
/-- `pageCall` with clients that take ASCII keys, with other keys of that kind, and
    with a search service that is down at first. -/
def flakyCall : Invocation :=
  { pageCall with
    settings := .ok rekeyedSettings
    decomposeCall := { pageCall.decomposeCall with chatModel := fun m => asciiKey m.apiKey }
    branch := fun n =>
      { tavilyClient := asciiKey
        tavily := fun attempt q =>
          if attempt = 0 then .error ⟨.httpStatusError 503, lit "unavailable"⟩
          else (pageCall.branch n).tavily attempt q
        haiku := { (pageCall.branch n).haiku with chatModel := fun m => asciiKey m.apiKey } }
    assembleCall := { pageCall.assembleCall with chatModel := fun m => asciiKey m.apiKey } }

theorem alike_branch_flakyCall (n : Nat) :
    (flakyCall.branch n).Alike rekeyedSettings keyedSettings (pageCall.branch n) := by
  have hpage (q : Str) : runTavilySearch q (flakyCall.branch n).tavily =
      { runTavilySearch q (pageCall.branch n).tavily with calls := 2 } := by
    have hdown : FailsTransiently q (flakyCall.branch n).tavily :=
      ⟨_, rfl, .inr ⟨503, rfl, by decide⟩⟩
    have hup : ¬ FailsTransiently q (pageCall.branch n).tavily := by
      rintro ⟨exc, hfails, -⟩
      cases hfails
    rw [runTavilySearch_of_transient hdown, runTavilySearch_of_not_transient hup]
    rfl
  exact ⟨rfl, ⟨fun _ _ => rfl, rfl, rfl, rfl⟩, fun q => by rw [hpage], fun q => by rw [hpage]⟩

theorem alike_flakyCall : flakyCall.Alike pageCall where
  argv := rfl
  settings := .some ⟨⟨rfl, rfl, rfl, rfl⟩, ⟨fun _ _ => rfl, rfl, rfl, rfl⟩,
    alike_branch_flakyCall, ⟨fun _ _ => rfl, rfl, rfl, rfl⟩⟩
  langfuse := rfl
  flush := rfl
  mkdir := rfl
  outputsDir := rfl
  costDoc := rfl
  now := rfl
  latencyS := rfl
  reportFile := rfl
  costFile := rfl

omit [UnicodeData] in
theorem outcomes_eq_of_alike_flakyCall :
    @Invocation.Outcomes .basicLatin flakyCall emptyDisk =
      @Invocation.Outcomes .basicLatin pageCall emptyDisk :=
  @outcomes_eq_of_alike .basicLatin _ _ (@alike_flakyCall .basicLatin) emptyDisk

end ResearchSynthesis
