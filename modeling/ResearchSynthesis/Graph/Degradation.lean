-- SUMMARY: Whatever the searches and the model do after the decomposition, no node raises and the run reaches its end with a report.
import ResearchSynthesis.Graph.Completion
import ResearchSynthesis.Main

/-!
# Graceful degradation

Only the decomposition is essential. Once it succeeds, and given priced models
and clients that can be made, the failures of branches and of the assembly are
absorbed where they happen.
-/

namespace ResearchSynthesis
open Python StateGraph

variable [UnicodeData]

/-! ## Priced models -/

def IsPriced (model : Str) : Prop := ∃ prices, modelCosts.lookup model = some prices

theorem validateModels_eq_ok_iff {settings : Settings} :
    validateModels settings = .ok () ↔
      IsPriced settings.supervisorModel ∧ IsPriced settings.workerModel := by
  simp only [validateModels, IsPriced, List.filter_cons, List.filter_nil]
  generalize modelCosts.lookup settings.supervisorModel = supervisor
  generalize modelCosts.lookup settings.workerModel = worker
  cases supervisor <;> cases worker <;> simp

/-- The models of the defaults are priced. -/
theorem validateModels_of_default {settings : Settings}
    (hsupervisor : settings.supervisorModel = keyedSettings.supervisorModel)
    (hworker : settings.workerModel = keyedSettings.workerModel) :
    validateModels settings = .ok () := by
  refine validateModels_eq_ok_iff.mpr ⟨⟨⟨2, 10⟩, ?_⟩, ⟨⟨1, 5⟩, ?_⟩⟩
  · rw [hsupervisor]
    rfl
  · rw [hworker]
    rfl

theorem runSummarize_of_priced {modelName : Str} (h : IsPriced modelName)
    (searchResult : SearchResult) (call : LlmCall AIMessage) :
    ∃ x, (runSummarize searchResult modelName call).outcome = .ok x := by
  obtain ⟨prices, hprices⟩ := h
  by_cases hempty : searchResult.results = []
  · exact ⟨_, runSummarize_eq_ok_iff.mpr (.inl ⟨hempty, rfl⟩)⟩
  cases hinvoke : call.invoke (buildMessages searchResult.subQuestion searchResult.results) with
  | error exc => exact ⟨_, runSummarize_eq_ok_iff.mpr (.inr (.inl ⟨exc, hempty, hinvoke, rfl⟩))⟩
  | ok response =>
    obtain ⟨entry, hentry⟩ := logLlmCall_of_priced hprices
    exact ⟨_, runSummarize_eq_ok_iff.mpr
      (.inr (.inr ⟨response, entry, hempty, hinvoke, hentry, rfl⟩))⟩

theorem runAssemble_of_priced {modelName : Str} (h : IsPriced modelName) (question : Str)
    (summaries : List Summary) (call : LlmCall (IncludeRaw AssembledReport)) :
    ∃ x, (runAssemble question summaries modelName call).outcome = .ok x := by
  obtain ⟨prices, hprices⟩ := h
  obtain ⟨entry, hentry⟩ := logLlmCall_of_priced hprices
  exact ⟨(_, entry), runAssemble_eq_ok_iff.mpr ⟨rfl, hentry⟩⟩

/-! ## Worlds in which a run cannot fail -/

/-- The decompose call returns a `DecomposedQuestion`. -/
def World.Decomposes (w : World) (question : Str) (decomposed : DecomposedQuestion) : Prop :=
  ∃ result, w.decomposeCall.invoke (buildDecomposeMessages question) = .ok result ∧
    result.parsed = some decomposed

omit [UnicodeData] in
/-- A question has one decomposition. -/
theorem World.Decomposes.unique {w : World} {question : Str} {d d' : DecomposedQuestion}
    (h : w.Decomposes question d) (h' : w.Decomposes question d') : d = d' := by
  obtain ⟨result, hresult, hparsed⟩ := h
  obtain ⟨result', hresult', hparsed'⟩ := h'
  rw [hresult, Except.ok.injEq] at hresult'
  rw [hresult', hparsed', Option.some.injEq] at hparsed
  exact hparsed.symm

theorem decomposes_of_runDecompose {w : World} {question modelName : Str}
    {x : DecomposedQuestion × CostEntry}
    (h : (runDecompose question modelName w.decomposeCall).outcome = .ok x) :
    w.Decomposes question x.1 := by
  obtain ⟨result, hresult, hparsed, -⟩ := runDecompose_eq_ok_iff.mp h
  exact ⟨result, hresult, hparsed⟩

theorem Completion.world_decomposes {w : World} {question : Str} (k : Completion w question) :
    w.Decomposes question k.decomposed :=
  decomposes_of_runDecompose k.decomposes

/-- Every client of a run that fans out `decomposed` can be made: the chat models,
    the Langfuse callbacks and the search clients. -/
structure World.ClientsConstruct (w : World) (decomposed : DecomposedQuestion) : Prop where
  decompose : ∃ config, w.decomposeClients = .ok config
  branch : ∀ i < min decomposed.subQuestions.length w.settings.maxSubQuestions,
    ∃ config, (w.branch i).clients w.settings = .ok config
  assemble : ∃ config, w.assembleClients = .ok config

/-- What a run relies on: priced models, a decomposition, and clients. That what
    the services return can be worked with (`str` of it returns, its numbers stay
    in the range of a float) is part of the model: see `Exn`, `Json.repr` and
    `calculateCost`. -/
structure World.Sound (w : World) (question : Str) : Prop where
  models : validateModels w.settings = .ok ()
  decomposes : ∃ decomposed, w.Decomposes question decomposed ∧ w.ClientsConstruct decomposed

/-- What a sound world needs once the sub-questions are there. -/
structure World.Degradable (w : World) (decomposed : DecomposedQuestion) : Prop where
  supervisor : IsPriced w.settings.supervisorModel
  worker : IsPriced w.settings.workerModel
  clients : w.ClientsConstruct decomposed

theorem World.Sound.degradable {w : World} {question : Str} (h : w.Sound question)
    {decomposed : DecomposedQuestion} (hd : w.Decomposes question decomposed) :
    w.Degradable decomposed := by
  obtain ⟨d, hd', hclients⟩ := h.decomposes
  obtain rfl := hd.unique hd'
  obtain ⟨hsupervisor, hworker⟩ := validateModels_eq_ok_iff.mp h.models
  exact ⟨hsupervisor, hworker, hclients⟩

/-! ## Every task returns -/

theorem decomposeNode_of_sound {w : World} {question : Str} (h : w.Sound question)
    {s : ResearchState} (hquestion : s.question = some question) :
    ∃ u, (decomposeNode w.settings w.decomposeCall s).outcome = .ok u := by
  obtain ⟨decomposed, ⟨result, hresult, hparsed⟩, hclients⟩ := h.decomposes
  obtain ⟨prices, hprices⟩ := (validateModels_eq_ok_iff.mp h.models).1
  obtain ⟨entry, hentry⟩ := logLlmCall_of_priced hprices
  exact ⟨_, decomposeNode_eq_ok_iff.mpr ⟨question, hquestion, hclients.decompose,
    (decomposed, entry), runDecompose_eq_ok_iff.mpr ⟨result, hresult, hparsed, hentry⟩, rfl⟩⟩

theorem decomposes_of_decomposeNode {w : World} {question : Str} {s : ResearchState} {u : Update}
    (hquestion : s.question = some question)
    (h : (decomposeNode w.settings w.decomposeCall s).outcome = .ok u) :
    ∃ decomposed, w.Decomposes question decomposed ∧
      u.subQuestions = some decomposed.subQuestions := by
  obtain ⟨question', hquestion', -, x, hx, rfl⟩ := decomposeNode_eq_ok_iff.mp h
  rw [hquestion, Option.some.injEq] at hquestion'
  subst hquestion'
  exact ⟨x.1, decomposes_of_runDecompose hx, rfl⟩

theorem researchNode_of_degradable {w : World} {decomposed : DecomposedQuestion}
    (h : w.Degradable decomposed) {payload : Payload}
    (hpayload : payload ∈ payloads w.settings decomposed.subQuestions) :
    ∃ u, (researchNode w.settings (w.branch payload.index) payload).outcome = .ok u := by
  let searchResult := searchResultOf payload (w.branch payload.index).tavily
  obtain ⟨x, hx⟩ := runSummarize_of_priced h.worker searchResult (w.branch payload.index).haiku
  exact ⟨_, researchNode_eq_ok_iff.mpr ⟨h.clients.branch _ (index_lt_of_mem_payloads hpayload),
    ⟨searchResult, x.summary, x.entry, runSummarize_subQuestion hx⟩, ⟨rfl, hx⟩, rfl⟩⟩

theorem assembleNode_of_degradable {w : World} {decomposed : DecomposedQuestion}
    (h : w.Degradable decomposed) {s : ResearchState} {question : Str}
    (hquestion : s.question = some question) :
    ∃ u, (assembleNode w.settings w.assembleCall s).outcome = .ok u := by
  obtain ⟨x, hx⟩ := runAssemble_of_priced h.supervisor question s.summaries w.assembleCall
  exact ⟨_, assembleNode_eq_ok_iff.mpr ⟨question, hquestion, h.clients.assemble, x, hx, rfl⟩⟩

theorem Phase.exec_ok {w : World} {decomposed : DecomposedQuestion} (h : w.Degradable decomposed)
    {s : ResearchState} {question : Str} (hquestion : s.question = some question)
    {executed : List (Task Node Payload)} {n : Nat} {c : RunConfig}
    (hphase : Phase w s decomposed.subQuestions executed n c) :
    ∀ t ∈ c.pending, ∃ u, (buildGraph w).exec t.node c.state t.arg = .ok u := by
  intro t ht
  cases hphase with
  | fannedOut =>
    obtain ⟨p, hp, rfl⟩ := List.mem_map.mp ht
    exact researchNode_of_degradable h hp
  | @joined bs hjoined =>
    obtain rfl := List.mem_singleton.mp ht
    have hkept : (joinedState s bs).question = some question := by
      simpa [joinedState, appendBranches_eq] using hquestion
    exact assembleNode_of_degradable h hkept
  | assembled _ _ =>
    obtain rfl := List.mem_singleton.mp ht
    exact ⟨_, rfl⟩
  | reported _ _ => cases ht

theorem Phase.next_ok {w : World} {s : ResearchState} {qs : List Str}
    {executed : List (Task Node Payload)} {n : Nat} {c : RunConfig}
    (hphase : Phase w s qs executed n c) {ran : List (Task Node Payload)}
    (hran : ran.Perm c.pending) (s' : ResearchState) :
    ∃ ts, (buildGraph w).next (ran.map (·.node)) s' = .ok ts := by
  refine ⟨_, next_of_not_mem_decompose w s' fun hmem => ?_⟩
  obtain ⟨t, ht, hnode⟩ := List.mem_map.mp hmem
  have ht := hran.mem_iff.mp ht
  cases hphase with
  | fannedOut =>
    obtain ⟨p, -, rfl⟩ := List.mem_map.mp ht
    cases hnode
  | joined _ =>
    obtain rfl := List.mem_singleton.mp ht
    cases hnode
  | assembled _ _ =>
    obtain rfl := List.mem_singleton.mp ht
    cases hnode
  | reported _ _ => cases ht

theorem Phase.supersteps_le {w : World} {s : ResearchState} {qs : List Str}
    {executed : List (Task Node Payload)} {n : Nat} {c : RunConfig}
    (hphase : Phase w s qs executed n c) : c.supersteps ≤ n + 3 := by
  cases hphase <;> simp [Config.barrier]

/-! ## No run fails -/

/-- Nothing can be raised in the superstep that begins at `c`. -/
structure SafeAt (w : World) (c : RunConfig) : Prop where
  supersteps : c.supersteps ≤ 4
  exec : ∀ t ∈ c.pending, ∃ u, (buildGraph w).exec t.node c.state t.arg = .ok u
  merge : ∀ ws : List (Task Node Payload × Update), (ws.map (·.1)).Perm c.pending →
    (∀ x ∈ ws, (buildGraph w).exec x.1.node c.state x.1.arg = .ok x.2) →
    ∃ s, ResearchState.schema.applyWrites c.state (ws.map (·.2)) = some s ∧
      ∃ ts, (buildGraph w).next (ws.map (·.1.node)) s = .ok ts

theorem SafeAt.not_fails {w : World} {b c : RunConfig} (h : SafeAt w b) {limit : Nat}
    (hlimit : 4 < limit) (hwithin : Within (buildGraph w) limit b c) (e : Failure Exn) :
    ¬ Fails (buildGraph w) ResearchState.schema limit c e := by
  intro hfails
  rcases hwithin.fails hfails with hle | ⟨t, ht, e, he⟩ | ⟨ws, hperm, -, hexec, hbad⟩
  · have := h.supersteps
    omega
  · obtain ⟨u, hu⟩ := h.exec t ht
    rw [he] at hu
    cases hu
  · obtain ⟨s, hs, ts, hts⟩ := h.merge ws hperm hexec
    rcases hbad with hnone | ⟨s', e, hs', he⟩
    · rw [hs] at hnone
      cases hnone
    · rw [hs, Option.some.injEq] at hs'
      rw [← hs', hts] at he
      cases he

theorem Phase.safeAt {w : World} {decomposed : DecomposedQuestion} (h : w.Degradable decomposed)
    {s : ResearchState} {question : Str} (hquestion : s.question = some question)
    {executed : List (Task Node Payload)} {c : RunConfig}
    (hphase : Phase w s decomposed.subQuestions executed 1 c) : SafeAt w c where
  supersteps := hphase.supersteps_le
  exec := hphase.exec_ok h hquestion
  merge := by
    intro ws hperm hexec
    have hplain := @Phase.nodup_plainWrites _ _ _ _ _ _ _ hphase ws [] (by simpa using hperm) hexec
    obtain ⟨ts, hts⟩ := hphase.next_ok hperm ((ws.map (·.2)).foldl ResearchState.apply c.state)
    exact ⟨_, (Schema.applyWrites_eq_some_iff _).mpr ⟨hplain, rfl⟩, ts, by rw [← hts, List.map_map]; rfl⟩

theorem safeAt_start {w : World} {question : Str} (h : w.Sound question) {s : ResearchState}
    (hquestion : s.question = some question) :
    SafeAt w (.barrier s [nodeTask .decompose] [] 0) where
  supersteps := Nat.zero_le _
  exec := by
    intro t ht
    obtain rfl := List.mem_singleton.mp ht
    exact decomposeNode_of_sound h hquestion
  merge := by
    intro ws hperm hexec
    obtain ⟨x, rfl, hx⟩ : ∃ x, ws = [x] ∧ x.1 = nodeTask .decompose := by
      simpa [List.map_eq_singleton_iff] using List.perm_singleton.mp hperm
    have hdecompose := hexec x (by simp)
    rw [hx] at hdecompose
    obtain ⟨decomposed, hqs⟩ := subQuestions_of_decomposeNode hdecompose
    refine ⟨s.apply x.2, applyWrites_singleton _ _, ?_⟩
    have hstate : (s.apply x.2).subQuestions = some decomposed.subQuestions := by
      rw [ResearchState.apply, hqs]
      rfl
    rw [List.map_singleton, hx]
    exact ⟨_, by rw [nodeTask, next_decompose, fanOutResearch_eq, hstate]; rfl⟩

theorem RunPhase.safeAt {w : World} {question : Str} (h : w.Sound question) {s : ResearchState}
    (hquestion : s.question = some question) {c : RunConfig} (hphase : RunPhase w s c) :
    SafeAt w c := by
  cases hphase with
  | start => exact safeAt_start h hquestion
  | @decomposed u qs _ hdecompose hqs hphase =>
    have hkept : (s.apply u).question = some question := by
      obtain ⟨-, -, -, x, -, rfl⟩ := decomposeNode_eq_ok_iff.mp hdecompose
      simpa [ResearchState.apply] using hquestion
    obtain ⟨decomposed, hdecomposed, hqs'⟩ := decomposes_of_decomposeNode hquestion hdecompose
    obtain rfl := Option.some.inj (hqs.symm.trans hqs')
    exact hphase.safeAt (h.degradable hdecomposed) hkept

theorem not_fails_of_reaches {w : World} {question : Str} (h : w.Sound question) {limit : Nat}
    (hlimit : 4 < limit) {c : RunConfig}
    (hreach : Reaches (buildGraph w) ResearchState.schema limit
      (init (buildGraph w) { question := some question }) c) (e : Failure Exn) :
    ¬ Fails (buildGraph w) ResearchState.schema limit c e := by
  obtain ⟨b, hphase, hwithin⟩ := exists_runPhase hreach
  exact (hphase.safeAt h rfl).not_fails hlimit hwithin e

/-- A sound world has completed runs, from any point of a run on. -/
theorem exists_done_of_reaches {w : World} {question : Str} (h : w.Sound question) {limit : Nat}
    (hlimit : 4 < limit) {c : RunConfig}
    (hreach : Reaches (buildGraph w) ResearchState.schema limit
      (init (buildGraph w) { question := some question }) c) :
    ∃ c', Reaches (buildGraph w) ResearchState.schema limit c c' ∧ c'.Done :=
  reaches_done _ _ _ fun _ hreach' e => not_fails_of_reaches h hlimit (hreach.trans hreach') e

/-! ## The report at the end -/

/-- The final report has one section for every researched sub-question, and
    there is one at least. -/
structure Reported (settings : Settings) (subQuestions : List Str) (s : ResearchState) : Prop where
  report : s.finalReport = some s.document.render
  headings : (s.document.sections.map (·.heading)).Perm
    (subQuestions.take settings.maxSubQuestions)
  length : s.document.sections.length = min subQuestions.length settings.maxSubQuestions
  length_pos : 1 ≤ min subQuestions.length settings.maxSubQuestions

theorem Completion.reported {w : World} {question : Str} (k : Completion w question) :
    Reported w.settings k.decomposed.subQuestions k.state where
  report := rfl
  headings := by
    simpa [Completion.state, Completion.reporterState, ResearchState.document, sectionOf,
      Function.comp_def] using k.subQuestion_branches
  length := by
    rw [← k.length_branches]
    simp [Completion.state, Completion.reporterState, ResearchState.document]
  length_pos := by
    have := k.decomposed.length_ge
    have := w.settings.maxSubQuestions_pos
    omega

/-- With priced models, clients that can be made and a decomposition, no run
    fails or goes on forever, whatever else the searches and the model do; every
    run can be continued to its end, which comes after four supersteps and with
    a report that has a section for every researched sub-question. -/
theorem degrades_gracefully (w : World) (question : Str) (h : w.Sound question) :
    let start := init (buildGraph w) { question := some question }
    let reaches := Reaches (buildGraph w) ResearchState.schema recursionLimit
    Acc (fun c' c => Step (buildGraph w) ResearchState.schema recursionLimit c c') start ∧
      (∀ c, reaches start c →
        (∀ e, ¬ Fails (buildGraph w) ResearchState.schema recursionLimit c e) ∧
          ∃ c', reaches c c' ∧ c'.Done) ∧
      ∀ c, reaches start c → c.Done →
        c.supersteps = 4 ∧ c.supersteps < recursionLimit ∧
          ∃ decomposed, w.Decomposes question decomposed ∧
            Reported w.settings decomposed.subQuestions c.state := by
  intro start reaches
  have hlimit : 4 < recursionLimit := by decide
  refine ⟨step_terminates _ _ _ _, fun c hreach => ⟨not_fails_of_reaches h hlimit hreach,
    exists_done_of_reaches h hlimit hreach⟩, fun c hreach hdone => ?_⟩
  obtain ⟨k, hstate, -, hsupersteps⟩ := exists_completion hreach hdone
  exact ⟨hsupersteps, by rw [hsupersteps]; exact hlimit, k.decomposed, k.world_decomposes,
    hstate ▸ k.reported⟩

theorem sound_sunnyWorld (question : Str) : sunnyWorld.Sound question where
  models := validateModels_of_default rfl rfl
  decomposes := ⟨_, ⟨_, rfl, rfl⟩, ⟨⟨_, rfl⟩, fun _ _ => ⟨_, rfl⟩, ⟨_, rfl⟩⟩⟩

omit [UnicodeData] in
theorem degrades_gracefully_sunnyWorld :
    ∃ c, Reaches (@buildGraph .basicLatin sunnyWorld) ResearchState.schema recursionLimit
        (init (@buildGraph .basicLatin sunnyWorld) { question := some (lit "question") }) c ∧
      c.Done ∧ c.supersteps = 4 ∧ ∃ decomposed, sunnyWorld.Decomposes (lit "question") decomposed ∧
        @Reported .basicLatin sunnyWorld.settings decomposed.subQuestions c.state := by
  obtain ⟨-, hruns, hends⟩ := @degrades_gracefully .basicLatin sunnyWorld (lit "question")
    (@sound_sunnyWorld .basicLatin _)
  obtain ⟨-, c, hreach, hdone⟩ := hruns _ .refl
  obtain ⟨hsupersteps, -, hreported⟩ := hends c hreach hdone
  exact ⟨c, hreach, hdone, hsupersteps, hreported⟩

end ResearchSynthesis
