-- SUMMARY: Langfuse in the nodes: a run whose nodes get their callbacks is a run of the world without Langfuse.
import ResearchSynthesis.Graph.Degradation
import ResearchSynthesis.StateGraph.Agreement

/-!
# Tracing in the graph

Without its keys Langfuse is never touched, so a run without keys is a run of
the `untraced` world, whose constructors all return. With the keys, a node does
what it does in that world once its constructors have returned, and raises
otherwise: no run that goes through such a node reaches its end.
-/

namespace ResearchSynthesis
open Python StateGraph

/-! ## Without keys -/

def Settings.withoutLangfuse (s : Settings) : Settings :=
  { s with langfusePublicKey := none, langfuseSecretKey := none }

def LlmCall.untraced {α : Type} (call : LlmCall α) : LlmCall α := { call with langfuse := {} }

/-- The world without Langfuse. -/
def World.untraced (w : World) : World where
  settings := w.settings.withoutLangfuse
  decomposeCall := w.decomposeCall.untraced
  branch i := { w.branch i with haiku := (w.branch i).haiku.untraced }
  assembleCall := w.assembleCall.untraced

/-- A node gets its callbacks. -/
def Configures (settings : Settings) (langfuse : Langfuse) : Prop :=
  ∃ config, langfuseConfig settings langfuse = .ok config

/-- Both keys are set. -/
def Settings.Traced (s : Settings) : Prop :=
  isSet s.langfusePublicKey ∧ isSet s.langfuseSecretKey

theorem getLangfuseClient_of_not_traced {s : Settings} (h : ¬ s.Traced) (langfuse : Langfuse) :
    getLangfuseClient s langfuse = .ok none := by
  rw [Settings.Traced, ← Bool.and_eq_true, Bool.not_eq_true] at h
  rw [getLangfuseClient, if_pos]
  rw [h, Bool.not_false]

theorem getLangfuseClient_of_traced {s : Settings} (h : s.Traced) (langfuse : Langfuse) :
    getLangfuseClient s langfuse = langfuse.client.map some := by
  rw [getLangfuseClient, if_neg]
  simp [h.1, h.2]

theorem configures_of_not_traced {s : Settings} (h : ¬ s.Traced) (langfuse : Langfuse) :
    Configures s langfuse :=
  ⟨{}, by rw [langfuseConfig, getLangfuseClient_of_not_traced h]; rfl⟩

/-- With both keys set, a node gets its callbacks if both constructors return. -/
theorem configures_iff_of_traced {s : Settings} (h : s.Traced) (langfuse : Langfuse) :
    Configures s langfuse ↔ langfuse.Constructs := by
  rw [Configures, langfuseConfig, getLangfuseClient_of_traced h, Langfuse.Constructs]
  cases langfuse.client with
  | error e => simp [Except.map, bind, Except.bind]
  | ok _ =>
    cases langfuse.callbackHandler with
    | error e => simp [Except.map, bind, Except.bind]
    | ok _ => simp [Except.map, bind, Except.bind, pure, Except.pure]

theorem not_traced_withoutLangfuse (s : Settings) : ¬ s.withoutLangfuse.Traced := by
  rintro ⟨h, -⟩
  cases h

/-! ## Nodes that get their callbacks -/

variable [UnicodeData]

omit [UnicodeData] in
/-- The constructors that the task's node calls return. -/
def World.ConfiguresTask (w : World) (t : Task Node Payload) : Prop :=
  match t.node, t.arg with
  | .decompose, _ => Configures w.settings w.decomposeCall.langfuse
  | .research, some payload => Configures w.settings (w.branch payload.index).haiku.langfuse
  | .research, none => True
  | .assemble, _ => Configures w.settings w.assembleCall.langfuse
  | .reporter, _ => True

omit [UnicodeData] in
theorem langfuseConfig_withoutLangfuse (s : Settings) (langfuse : Langfuse) :
    langfuseConfig s.withoutLangfuse langfuse = .ok {} := by
  rw [langfuseConfig, getLangfuseClient_of_not_traced (not_traced_withoutLangfuse s)]
  rfl

section
variable {α β : Type}

omit [UnicodeData] in
theorem setup_untraced (call : LlmCall α) (s : Settings) (modelName : Str) (maxTokens : Nat) :
    call.untraced.setup s.withoutLangfuse modelName maxTokens =
      (buildChatModel s modelName maxTokens call.chatModel).map fun _ => {} := by
  have hmodel : buildChatModel s.withoutLangfuse modelName maxTokens call.untraced.chatModel =
      buildChatModel s modelName maxTokens call.chatModel := rfl
  rw [LlmCall.setup, hmodel, langfuseConfig_withoutLangfuse]
  cases buildChatModel s modelName maxTokens call.chatModel <;> rfl

omit [UnicodeData] in
/-- A node that gets its callbacks goes on as without Langfuse: it fails with its
    chat model, or calls it. -/
theorem setup_bind_untraced {call : LlmCall α} {s : Settings} (h : Configures s call.langfuse)
    (modelName : Str) (maxTokens : Nat) (rest : Except Exn β) :
    (call.untraced.setup s.withoutLangfuse modelName maxTokens >>= fun _ => rest) =
      call.setup s modelName maxTokens >>= fun _ => rest := by
  obtain ⟨config, hconfig⟩ := h
  rw [setup_untraced, LlmCall.setup, hconfig]
  cases buildChatModel s modelName maxTokens call.chatModel <;> rfl

omit [UnicodeData] in
theorem configures_of_setup {call : LlmCall α} {s : Settings} {modelName : Str} {maxTokens : Nat}
    (h : ∃ config, call.setup s modelName maxTokens = .ok config) : Configures s call.langfuse := by
  obtain ⟨config, hconfig⟩ := h
  obtain ⟨-, -, hlangfuse⟩ := bind_eq_ok_iff.mp hconfig
  exact ⟨config, hlangfuse⟩

end

/-- A task whose node gets its callbacks does what it does without Langfuse. -/
theorem exec_untraced {w : World} {t : Task Node Payload} (h : w.ConfiguresTask t)
    (s : ResearchState) :
    (buildGraph w.untraced).exec t.node s t.arg = (buildGraph w).exec t.node s t.arg := by
  obtain ⟨node, arg⟩ := t
  cases node with
  | decompose =>
    simp only [buildGraph, World.exec, World.call, decomposeNode, Calling.outcome_bind,
      Calling.outcome_lift]
    congr
    funext question
    exact setup_bind_untraced h _ _ _
  | research =>
    cases arg with
    | none => rfl
    | some payload =>
      simp only [buildGraph, World.exec, World.call, outcome_researchNode, Branch.clients, bind_assoc]
      exact congrArg (_ >>= ·) (funext fun _ => setup_bind_untraced h _ _ _)
  | assemble =>
    simp only [buildGraph, World.exec, World.call, assembleNode, Calling.outcome_bind,
      Calling.outcome_lift]
    congr
    funext question
    exact setup_bind_untraced h _ _ _
  | reporter => rfl

/-! ## Runs -/

/-- The constructors return in every node of a run that fans out `decomposed`. -/
structure World.NodesConstruct (w : World) (decomposed : DecomposedQuestion) : Prop where
  decompose : w.decomposeCall.langfuse.Constructs
  branch : ∀ i < min decomposed.subQuestions.length w.settings.maxSubQuestions,
    (w.branch i).haiku.langfuse.Constructs
  assemble : w.assembleCall.langfuse.Constructs

theorem RunPhase.configuresTask {w : World} {question : Str} {decomposed : DecomposedQuestion}
    (hdecomposes : w.Decomposes question decomposed) (h : w.NodesConstruct decomposed)
    {s : ResearchState} (hquestion : s.question = some question) {c : RunConfig}
    (hphase : RunPhase w s c) : ∀ t ∈ c.pending, w.ConfiguresTask t := by
  intro t ht
  cases hphase with
  | start =>
    obtain rfl := List.mem_singleton.mp ht
    exact langfuseConfig_of_constructs h.decompose
  | @decomposed u qs _ hdecompose hqs hphase =>
    cases hphase with
    | fannedOut =>
      obtain ⟨p, hp, rfl⟩ := List.mem_map.mp ht
      obtain ⟨d, hd, hsub⟩ := decomposes_of_decomposeNode hquestion hdecompose
      obtain rfl := hd.unique hdecomposes
      rw [hqs, Option.some.injEq] at hsub
      exact langfuseConfig_of_constructs
        (h.branch p.index (hsub ▸ index_lt_of_mem_payloads hp))
    | joined _ =>
      obtain rfl := List.mem_singleton.mp ht
      exact langfuseConfig_of_constructs h.assemble
    | assembled _ _ =>
      obtain rfl := List.mem_singleton.mp ht
      trivial
    | reported _ _ => cases ht

section
variable {w : World} {question : Str} {limit : Nat}

theorem agree_untraced
    (h : ∀ c, Reaches (buildGraph w) ResearchState.schema limit
      (init (buildGraph w) { question := some question }) c → ∀ t ∈ c.pending, w.ConfiguresTask t) :
    Agree (buildGraph w) (buildGraph w.untraced) ResearchState.schema limit
      (init (buildGraph w) { question := some question }) where
  next := rfl
  exec c hreach t ht := exec_untraced (h c hreach t ht) c.state

/-- Where the constructors return, Langfuse changes nothing about the runs. -/
theorem agree_untraced_of_nodesConstruct {decomposed : DecomposedQuestion}
    (hdecomposes : w.Decomposes question decomposed) (h : w.NodesConstruct decomposed) :
    Agree (buildGraph w) (buildGraph w.untraced) ResearchState.schema limit
      (init (buildGraph w) { question := some question }) := by
  refine agree_untraced fun c hreach t ht => ?_
  obtain ⟨b, hphase, hwithin⟩ := exists_runPhase hreach
  exact hphase.configuresTask hdecomposes h rfl t (hwithin.mem_pending _ _ ht)

/-- Without the keys it changes nothing either. -/
theorem agree_untraced_of_not_traced (h : ¬ w.settings.Traced) :
    Agree (buildGraph w) (buildGraph w.untraced) ResearchState.schema limit
      (init (buildGraph w) { question := some question }) := by
  refine agree_untraced fun c _ t _ => ?_
  obtain ⟨node, arg⟩ := t
  cases node with
  | decompose | assemble => exact configures_of_not_traced h _
  | research =>
    cases arg with
    | none => trivial
    | some payload => exact configures_of_not_traced h _
  | reporter => trivial

/-- A run reaches its end only where every client can be made. -/
theorem clientsConstruct_of_done {c : RunConfig}
    (hreach : Reaches (buildGraph w) ResearchState.schema limit
      (init (buildGraph w) { question := some question }) c) (hdone : c.Done) :
    ∃ decomposed, w.Decomposes question decomposed ∧ w.ClientsConstruct decomposed := by
  obtain ⟨k, -, hexecuted, -⟩ := exists_completion hreach hdone
  have hreturned : ∀ t ∈ k.executed, ∃ s u, (buildGraph w).exec t.node s t.arg = .ok u :=
    fun t ht => hreach.exec_of_executed rfl rfl t (hexecuted ▸ ht)
  refine ⟨k.decomposed, k.world_decomposes, ?_, fun i hi => ?_, ?_⟩
  · obtain ⟨s, u, hexec⟩ := hreturned (nodeTask .decompose) (by simp [Completion.executed])
    obtain ⟨-, -, hsetup, -⟩ := decomposeNode_eq_ok_iff.mp hexec
    exact hsetup
  · obtain ⟨x, hx, rfl⟩ : ∃ x ∈ k.branches, x.1.index = i := by
      obtain ⟨p, hp, rfl⟩ := exists_mem_payloads hi
      obtain ⟨x, hx, rfl⟩ := List.mem_map.mp (k.joined.perm.mem_iff.mpr hp)
      exact ⟨x, hx, rfl⟩
    obtain ⟨s, u, hexec⟩ := hreturned (branchTask x.1)
      (List.mem_append_left _ (List.mem_append_right _ (List.mem_map_of_mem hx)))
    exact (researchNode_eq_ok_iff.mp hexec).1
  · obtain ⟨s, u, hexec⟩ := hreturned (nodeTask .assemble) (by simp [Completion.executed])
    obtain ⟨-, -, hsetup, -⟩ := assembleNode_eq_ok_iff.mp hexec
    exact hsetup

omit [UnicodeData] in
/-- With the keys, Langfuse's constructors are among the clients. -/
theorem World.ClientsConstruct.nodesConstruct {decomposed : DecomposedQuestion}
    (h : w.ClientsConstruct decomposed) (htraced : w.settings.Traced) :
    w.NodesConstruct decomposed where
  decompose := (configures_iff_of_traced htraced _).mp (configures_of_setup h.decompose)
  branch i hi := by
    obtain ⟨config, hclients⟩ := h.branch i hi
    obtain ⟨-, -, hsetup⟩ := bind_eq_ok_iff.mp hclients
    exact (configures_iff_of_traced htraced _).mp (configures_of_setup ⟨config, hsetup⟩)
  assemble := (configures_iff_of_traced htraced _).mp (configures_of_setup h.assemble)

end

omit [UnicodeData] in
/-- The clients that are made with Langfuse are made without. -/
theorem World.ClientsConstruct.untraced {w : World} {decomposed : DecomposedQuestion}
    (h : w.ClientsConstruct decomposed) : w.untraced.ClientsConstruct decomposed := by
  have hsetup {α : Type} {call : LlmCall α} {modelName : Str} {maxTokens : Nat}
      (h : ∃ config, call.setup w.settings modelName maxTokens = .ok config) :
      ∃ config, call.untraced.setup w.settings.withoutLangfuse modelName maxTokens =
        .ok config := by
    obtain ⟨config, hconfig⟩ := h
    obtain ⟨_, hmodel, -⟩ := bind_eq_ok_iff.mp hconfig
    exact ⟨{}, by rw [setup_untraced, hmodel]; rfl⟩
  refine ⟨hsetup h.decompose, fun i hi => ?_, hsetup h.assemble⟩
  obtain ⟨config, hclients⟩ := h.branch i hi
  obtain ⟨_, htavily, hconfig⟩ := bind_eq_ok_iff.mp hclients
  obtain ⟨config', hconfig'⟩ := hsetup ⟨config, hconfig⟩
  exact ⟨config', bind_eq_ok_iff.mpr ⟨_, htavily, hconfig'⟩⟩

/-- Without Langfuse, priced models, a decomposition and the other clients are
    enough. -/
theorem sound_untraced {w : World} {question : Str} (hmodels : validateModels w.settings = .ok ())
    {decomposed : DecomposedQuestion} (h : w.Decomposes question decomposed)
    (hclients : w.untraced.ClientsConstruct decomposed) : w.untraced.Sound question where
  models := hmodels
  decomposes := ⟨decomposed, h, hclients⟩

end ResearchSynthesis
