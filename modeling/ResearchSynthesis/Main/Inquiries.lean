-- SUMMARY: What a run asks of the models and of the search service, and that nothing else of them has a part in it.
import ResearchSynthesis.Agents.SearchContract
import ResearchSynthesis.Graph.Outcomes
import ResearchSynthesis.Main.Tracing

/-!
# What a run asks

`World.Asks` lists the calls that the runs on a question make, each with all that it
is shown. `outcomes_eq_of_answersLike` says that the list is complete: where the
clients are the same and these calls are answered the same, and any other call in
any way, the runs are the same.
-/

namespace ResearchSynthesis
open Python StateGraph

/-- A call to the outside, with all that it is shown. -/
inductive Inquiry where
  | decompose (messages : List Message)
  | search (branch attempt : Nat) (query : Str)
  | summarize (branch : Nat) (messages : List Message)
  | assemble (messages : List Message)

/-- The calls are made with the same model and callbacks and take the same time. -/
structure LlmCall.SameClient {α : Type} (call call' : LlmCall α) : Prop where
  chatModel : call'.chatModel = call.chatModel
  langfuse : call'.langfuse = call.langfuse
  latencyMs : call'.latencyMs = call.latencyMs

theorem LlmCall.SameClient.setup_eq {α : Type} {call call' : LlmCall α}
    (h : call.SameClient call') : call'.setup = call.setup := by
  funext settings modelName maxTokens
  rw [LlmCall.setup, LlmCall.setup, h.chatModel, h.langfuse]

variable [UnicodeData]

/-- A branch makes the same clients. -/
structure Branch.SameClients (b b' : Branch) : Prop where
  tavilyClient : b'.tavilyClient = b.tavilyClient
  haiku : b.haiku.SameClient b'.haiku

omit [UnicodeData] in
theorem Branch.SameClients.clients_eq {b b' : Branch} (h : b.SameClients b') :
    b'.clients = b.clients := by
  funext settings
  rw [Branch.clients, Branch.clients, h.tavilyClient, h.haiku.setup_eq]

/-- The calls that the runs of `w` on `question` make. -/
inductive World.Asks (w : World) (question : Str) : Inquiry → Prop where
  | decompose : Asks w question (.decompose (buildDecomposeMessages question))
  | search {d : DecomposedQuestion} {p : Payload} (hdecomposes : w.Decomposes question d)
      (hp : p ∈ payloads w.settings d.subQuestions) :
      Asks w question (.search p.index 0 p.subQuestion)
  | retry {d : DecomposedQuestion} {p : Payload} (hdecomposes : w.Decomposes question d)
      (hp : p ∈ payloads w.settings d.subQuestions)
      (hfails : FailsTransiently p.subQuestion (w.branch p.index).tavily) :
      Asks w question (.search p.index 1 p.subQuestion)
  /-- The model is shown the sub-question and the results of its own branch. -/
  | summarize {d : DecomposedQuestion} {p : Payload} (hdecomposes : w.Decomposes question d)
      (hp : p ∈ payloads w.settings d.subQuestions)
      (hfound : (searchResultOf p (w.branch p.index).tavily).results ≠ []) :
      Asks w question (.summarize p.index
        (buildMessages p.subQuestion (searchResultOf p (w.branch p.index).tavily).results))
  /-- The model is shown the summaries, in the order in which the branches have finished. -/
  | assemble {d : DecomposedQuestion} {bs : List (Payload × BranchUpdate)}
      (hdecomposes : w.Decomposes question d) (hjoined : Joined w d.subQuestions bs) :
      Asks w question (.assemble (buildAssembleMessages question (bs.map (·.2.summary))))

omit [UnicodeData] in
def World.SameAnswer (w w' : World) : Inquiry → Prop
  | .decompose messages => w'.decomposeCall.invoke messages = w.decomposeCall.invoke messages
  | .search i attempt query => (w'.branch i).tavily attempt query = (w.branch i).tavily attempt query
  | .summarize i messages =>
    (w'.branch i).haiku.invoke messages = (w.branch i).haiku.invoke messages
  | .assemble messages => w'.assembleCall.invoke messages = w.assembleCall.invoke messages

/-- `w'` has the same clients and answers as `w` does wherever the runs of `w` on `question` ask. -/
structure World.AnswersLike (w' w : World) (question : Str) : Prop where
  settings : w'.settings = w.settings
  decomposeCall : w.decomposeCall.SameClient w'.decomposeCall
  branch : ∀ i, (w.branch i).SameClients (w'.branch i)
  assembleCall : w.assembleCall.SameClient w'.assembleCall
  answers : ∀ x, w.Asks question x → w.SameAnswer w' x

/-! ## Cores that get the same answers -/

theorem runTavilySearch_congr {subQuestion : Str} {search search' : SearchFn}
    (hfirst : search' 0 subQuestion = search 0 subQuestion)
    (hretry : FailsTransiently subQuestion search → search' 1 subQuestion = search 1 subQuestion) :
    runTavilySearch subQuestion search' = runTavilySearch subQuestion search := by
  have hfails : FailsTransiently subQuestion search' ↔ FailsTransiently subQuestion search := by
    unfold FailsTransiently
    rw [hfirst]
  by_cases h : FailsTransiently subQuestion search
  · rw [runTavilySearch_of_transient h, runTavilySearch_of_transient (hfails.mpr h), hretry h]
  · rw [runTavilySearch_of_not_transient h, runTavilySearch_of_not_transient (mt hfails.mp h), hfirst]

theorem runSummarize_congr {searchResult : SearchResult} {modelName : Str}
    {call call' : LlmCall AIMessage} (hclient : call.SameClient call')
    (hinvoke : searchResult.results ≠ [] →
      call'.invoke (buildMessages searchResult.subQuestion searchResult.results) =
        call.invoke (buildMessages searchResult.subQuestion searchResult.results)) :
    (runSummarize searchResult modelName call').outcome =
      (runSummarize searchResult modelName call).outcome := by
  rw [outcome_runSummarize, outcome_runSummarize]
  by_cases hempty : searchResult.results = []
  · rw [if_pos hempty, if_pos hempty]
  · rw [if_neg hempty, if_neg hempty, hinvoke hempty, hclient.latencyMs]

theorem runDecompose_congr {question modelName : Str}
    {call call' : LlmCall (IncludeRaw DecomposedQuestion)} (hclient : call.SameClient call')
    (hinvoke : call'.invoke (buildDecomposeMessages question) =
      call.invoke (buildDecomposeMessages question)) :
    (runDecompose question modelName call').outcome =
      (runDecompose question modelName call).outcome := by
  rw [outcome_runDecompose, outcome_runDecompose, hinvoke, hclient.latencyMs]

theorem runAssemble_congr {question modelName : Str} {summaries : List Summary}
    {call call' : LlmCall (IncludeRaw AssembledReport)} (hclient : call.SameClient call')
    (hinvoke : call'.invoke (buildAssembleMessages question summaries) =
      call.invoke (buildAssembleMessages question summaries)) :
    (runAssemble question summaries modelName call').outcome =
      (runAssemble question summaries modelName call).outcome := by
  rw [outcome_runAssemble, outcome_runAssemble, hinvoke, hclient.latencyMs]

/-! ## Nodes that get the same answers -/

namespace World.AnswersLike

variable {w w' : World} {question : Str}

theorem decomposeNode_eq (h : w'.AnswersLike w question) {s : ResearchState}
    (hquestion : s.question = some question) :
    (decomposeNode w'.settings w'.decomposeCall s).outcome =
      (decomposeNode w.settings w.decomposeCall s).outcome := by
  have hrun (modelName : Str) : (runDecompose question modelName w'.decomposeCall).outcome =
      (runDecompose question modelName w.decomposeCall).outcome :=
    runDecompose_congr h.decomposeCall (h.answers _ .decompose)
  have hrequire := requireQuestion_eq_ok_iff.mpr hquestion
  simp only [decomposeNode, Calling.outcome_bind, Calling.outcome_lift, hrequire, h.settings,
    h.decomposeCall.setup_eq]
  simp only [bind, Except.bind, hrun]

section
variable {d : DecomposedQuestion}

theorem searchResultOf_eq (h : w'.AnswersLike w question) (hdecomposes : w.Decomposes question d)
    {p : Payload} (hp : p ∈ payloads w.settings d.subQuestions) :
    searchResultOf p (w'.branch p.index).tavily = searchResultOf p (w.branch p.index).tavily := by
  have hfirst : w.SameAnswer w' (.search p.index 0 p.subQuestion) :=
    h.answers _ (.search hdecomposes hp)
  unfold searchResultOf
  rw [runTavilySearch_congr hfirst fun hfails => h.answers _ (.retry hdecomposes hp hfails)]

theorem researchNode_eq (h : w'.AnswersLike w question) (hdecomposes : w.Decomposes question d)
    {p : Payload} (hp : p ∈ payloads w.settings d.subQuestions) :
    (researchNode w'.settings (w'.branch p.index) p).outcome =
      (researchNode w.settings (w.branch p.index) p).outcome := by
  have hrun (modelName : Str) :
      (runSummarize (searchResultOf p (w.branch p.index).tavily) modelName
          (w'.branch p.index).haiku).outcome =
        (runSummarize (searchResultOf p (w.branch p.index).tavily) modelName
          (w.branch p.index).haiku).outcome :=
    runSummarize_congr (h.branch p.index).haiku fun hfound =>
      h.answers _ (.summarize hdecomposes hp hfound)
  simp only [outcome_researchNode, (h.branch p.index).clients_eq,
    h.searchResultOf_eq hdecomposes hp, h.settings, hrun]

theorem assembleNode_eq (h : w'.AnswersLike w question) (hdecomposes : w.Decomposes question d)
    {bs : List (Payload × BranchUpdate)} (hjoined : Joined w d.subQuestions bs) {s : ResearchState}
    (hquestion : s.question = some question) (hsummaries : s.summaries = bs.map (·.2.summary)) :
    (assembleNode w'.settings w'.assembleCall s).outcome =
      (assembleNode w.settings w.assembleCall s).outcome := by
  have hrun (modelName : Str) :
      (runAssemble question (bs.map (·.2.summary)) modelName w'.assembleCall).outcome =
        (runAssemble question (bs.map (·.2.summary)) modelName w.assembleCall).outcome :=
    runAssemble_congr h.assembleCall (h.answers _ (.assemble hdecomposes hjoined))
  have hrequire := requireQuestion_eq_ok_iff.mpr hquestion
  simp only [assembleNode, Calling.outcome_bind, Calling.outcome_lift, hrequire, hsummaries,
    h.settings, h.assembleCall.setup_eq]
  simp only [bind, Except.bind, hrun]

end

/-! ## Runs that get the same answers -/

theorem summaries_joinedState {u : Update}
    (h : (decomposeNode w.settings w.decomposeCall { question := some question }).outcome = .ok u)
    (bs : List (Payload × BranchUpdate)) :
    (joinedState (({ question := some question } : ResearchState).apply u) bs).summaries =
      bs.map (·.2.summary) := by
  obtain ⟨-, -, -, x, -, rfl⟩ := decomposeNode_eq_ok_iff.mp h
  rw [joinedState, appendBranches_eq]
  simp [ResearchState.apply, Function.comp_def]

/-- Wherever a run has come to, what is pending does the same in both worlds. -/
theorem agree (h : w'.AnswersLike w question) (limit : Nat) :
    StateGraph.Agree (buildGraph w) (buildGraph w') ResearchState.schema limit
      (init (buildGraph w) { question := some question }) where
  next := by
    unfold buildGraph
    rw [h.settings]
    rfl
  exec c hreach t ht := by
    obtain ⟨b, hphase, hwithin⟩ := exists_runPhase hreach
    have hpending := hwithin.mem_pending _ _ ht
    rw [hwithin.state]
    cases hphase with
    | start =>
      obtain rfl := List.mem_singleton.mp hpending
      exact h.decomposeNode_eq rfl
    | @decomposed u qs _ hdecompose hqs hphase =>
      obtain ⟨d, hd, hsub⟩ := decomposes_of_decomposeNode rfl hdecompose
      rw [hqs, Option.some.injEq] at hsub
      subst hsub
      cases hphase with
      | fannedOut =>
        obtain ⟨p, hp, rfl⟩ := List.mem_map.mp hpending
        exact h.researchNode_eq hd hp
      | @joined bs hjoined =>
        obtain rfl := List.mem_singleton.mp hpending
        exact h.assembleNode_eq hd hjoined (question_joined_of_decomposed hdecompose bs)
          (summaries_joinedState hdecompose bs)
      | assembled _ _ =>
        obtain rfl := List.mem_singleton.mp hpending
        rfl
      | reported _ _ => cases hpending

end World.AnswersLike

/-! ## Calls that get the same answers -/

/-- `j` is `i` with other models and another search service, whose clients are those
    of `i` and which answer as those of `i` do wherever the runs of `i` ask. -/
structure Invocation.AnswersLike (j i : Invocation) : Prop where
  same : j = { i with
    decomposeCall := j.decomposeCall
    branch := j.branch
    assembleCall := j.assembleCall }
  world : ∀ settings, i.settings = .ok settings →
    (j.world settings).AnswersLike (i.world settings) (questionFromArgv i.argv)

/-- What is not asked has no part in a call: the runs of the graph come to the same
    points, and the call to the same exit code, output and disk. -/
theorem outcomes_eq_of_answersLike {i j : Invocation} (h : j.AnswersLike i) (disk : Disk Exn) :
    (∀ settings limit c, i.settings = .ok settings →
      (Reaches (buildGraph (j.world settings)) ResearchState.schema limit
          (init (buildGraph (j.world settings)) { question := some (questionFromArgv i.argv) }) c ↔
        Reaches (buildGraph (i.world settings)) ResearchState.schema limit
          (init (buildGraph (i.world settings)) { question := some (questionFromArgv i.argv) }) c)) ∧
    j.Outcomes disk = i.Outcomes disk := by
  have hsettings : j.settings = i.settings := by rw [h.same]
  have hargv : j.argv = i.argv := by rw [h.same]
  have hmain (graph : Ainvoke) : main j graph disk = main i graph disk := by
    rw [h.same]
    rfl
  refine ⟨fun settings limit c hi => ((h.world settings hi).agree limit).reaches_iff, ?_⟩
  cases hi : i.settings with
  | error e =>
    ext outcome
    simp [Invocation.Outcomes, hsettings, hi, hmain]
  | ok settings =>
    ext outcome
    rw [Invocation.mem_outcomes_iff hi, Invocation.mem_outcomes_iff (hsettings.trans hi), hargv]
    refine exists_congr fun r => and_congr (ainvokes_iff_of_agree ((h.world settings hi).agree _)) ?_
    rw [hmain]

omit [UnicodeData] in
/-- A supervisor that knows one question, and a search service that answers first
    calls only. -/
def choosyCall : Invocation :=
  { tracedCall {} (.ok ()) with
    decomposeCall :=
      { sunnyWorld.decomposeCall with
        invoke := fun messages =>
          match messages with
          | [_, .human content] =>
            if content = lit "question" then sunnyWorld.decomposeCall.invoke messages
            else .error ⟨.other, lit "unknown question"⟩
          | _ => .error ⟨.other, lit "no question"⟩ }
    branch := fun n =>
      { sunnyWorld.branch n with
        tavily := fun attempt query =>
          if attempt = 0 then (sunnyWorld.branch n).tavily attempt query
          else .error ⟨.other, lit "no second call"⟩ } }

theorem answersLike_choosyCall : choosyCall.AnswersLike (tracedCall {} (.ok ())) where
  same := rfl
  world settings hsettings := by
    have hquestion : questionFromArgv (tracedCall {} (.ok ())).argv = lit "question" := by decide
    refine ⟨rfl, ⟨rfl, rfl, rfl⟩, fun _ => ⟨rfl, rfl, rfl, rfl⟩, ⟨rfl, rfl, rfl⟩, fun x hx => ?_⟩
    cases hx with
    | decompose =>
      rw [hquestion]
      rfl
    | search _ _ => rfl
    | retry _ _ hfails =>
      obtain ⟨exc, hraised, -⟩ := hfails
      cases hraised
    | summarize _ _ _ => rfl
    | assemble _ _ => rfl

omit [UnicodeData] in
theorem outcomes_eq_of_answersLike_choosyCall :
    (∀ limit c,
      Reaches (@buildGraph .basicLatin (choosyCall.world tracedSettings)) ResearchState.schema limit
          (init (@buildGraph .basicLatin (choosyCall.world tracedSettings))
            { question := some (questionFromArgv choosyCall.argv) }) c ↔
        Reaches (@buildGraph .basicLatin ((tracedCall {} (.ok ())).world tracedSettings))
          ResearchState.schema limit
          (init (@buildGraph .basicLatin ((tracedCall {} (.ok ())).world tracedSettings))
            { question := some (questionFromArgv choosyCall.argv) }) c) ∧
    @Invocation.Outcomes .basicLatin choosyCall emptyDisk =
      @Invocation.Outcomes .basicLatin (tracedCall {} (.ok ())) emptyDisk := by
  obtain ⟨hreaches, houtcomes⟩ := @outcomes_eq_of_answersLike .basicLatin _ _
    (@answersLike_choosyCall .basicLatin) emptyDisk
  exact ⟨fun limit c => hreaches tracedSettings limit c rfl, houtcomes⟩

end ResearchSynthesis
