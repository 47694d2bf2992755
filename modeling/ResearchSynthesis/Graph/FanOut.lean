-- SUMMARY: Fan-out and fan-in: one search result and one summary per `Send`, in any order of the branches, and no write lost.
import ResearchSynthesis.Graph.Run
import ResearchSynthesis.Main

/-! # Fan-out and fan-in -/

namespace ResearchSynthesis
open Python StateGraph

variable [UnicodeData]

/-! ## Merging the updates of a branch -/

/-- A branch's update writes the three reducer channels at most, and holds
    everything that its searcher and its summarizer returned. -/
structure MergesWhole (settings : Settings) (branch : Branch) (payload : Payload) (u : Update) :
    Prop where
  keys : ∀ k ∈ u.keys, k ∈ [Channel.searchResults, .summaries, .costLog]
  parts : ∃ searched summarized,
    (searcherNode settings payload branch.tavilyClient branch.tavily).outcome = .ok searched ∧
      (summarizerNode settings (searchResultOf payload branch.tavily) branch.haiku).outcome =
        .ok summarized ∧
      (∀ k ∈ searched.keys, u.SameAt searched k) ∧ ∀ k ∈ summarized.keys, u.SameAt summarized k

omit [UnicodeData] in
theorem mem_of_isReducer {k : Channel} (h : k.isReducer) :
    k ∈ [Channel.searchResults, .summaries, .costLog] := by
  cases k <;> first | decide | cases h

/-- A branch that returns has merged what its two workers returned. -/
theorem exists_workers_of_researchNode {settings : Settings} {branch : Branch} {payload : Payload}
    {u : Update} (h : (researchNode settings branch payload).outcome = .ok u) :
    ∃ searched summarized,
      (searcherNode settings payload branch.tavilyClient branch.tavily).outcome = .ok searched ∧
        (summarizerNode settings (searchResultOf payload branch.tavily) branch.haiku).outcome =
          .ok summarized ∧
        searched = { searchResults := some [searchResultOf payload branch.tavily] } ∧
        (∃ x : Summarized, summarized = x.update) ∧ searched.merge summarized = u := by
  simp only [outcome_researchNode, Branch.clients, bind_eq_ok_iff] at h
  obtain ⟨config, ⟨_, hclient, hsetup⟩, x, hx, hu⟩ := h
  refine ⟨_, x.update, ?_, ?_, rfl, ⟨x, rfl⟩, Except.ok.inj hu⟩
  · rw [outcome_searcherNode, hclient]
    rfl
  · simp only [outcome_summarizerNode, hsetup, hx]
    rfl

theorem mergesWhole_of_researchNode {settings : Settings} {branch : Branch} {payload : Payload}
    {u : Update} (h : (researchNode settings branch payload).outcome = .ok u) :
    MergesWhole settings branch payload u := by
  refine ⟨fun k hk => ?_, ?_⟩
  · obtain ⟨-, b, -, rfl⟩ := researchNode_eq_ok_iff.mp h
    exact mem_of_isReducer (b.isReducer_of_mem_keys hk)
  · obtain ⟨searched, summarized, hsearched, hsummarized, heq, ⟨x, hx⟩, hu⟩ :=
      exists_workers_of_researchNode h
    have hdisjoint : ∀ k ∈ searched.keys, k ∉ summarized.keys := by
      -- The searcher writes `search_results`, the summarizer does not.
      intro k hk hkv
      rw [heq, Update.mem_keys] at hk
      rw [hx, Update.mem_keys] at hkv
      cases k <;> simp [Summarized.update, Update.has] at hk hkv
    exact ⟨searched, summarized, hsearched, hsummarized,
      fun k hk => hu ▸ Update.merge_sameAt_left (hdisjoint k hk),
      fun k hk => hu ▸ Update.merge_sameAt_right hk⟩

/-! ## What the branches leave behind -/

/-- One search result and one summary per `Send`, each about the `Send`'s own
    sub-question. -/
structure OnePerSend (sends : List (Send Node Payload)) (s : ResearchState) : Prop where
  branches : ∃ bs : List (Payload × BranchUpdate), (bs.map (·.1)).Perm (sends.map (·.arg)) ∧
    s.searchResults = bs.map (·.2.searchResult) ∧ s.summaries = bs.map (·.2.summary) ∧
    ∀ x ∈ bs, x.2.searchResult.nodeId = lit "searcher_" ++ natStr x.1.index ∧
      x.2.searchResult.subQuestion = x.1.subQuestion ∧ x.2.summary.subQuestion = x.1.subQuestion
  nodeIds : (s.searchResults.map (·.nodeId)).Nodup

theorem Joined.nodup_nodeIds {w : World} {qs : List Str} {bs : List (Payload × BranchUpdate)}
    (h : Joined w qs bs) : (bs.map (·.2.searchResult.nodeId)).Nodup := by
  have hids : bs.map (·.2.searchResult.nodeId) =
      (bs.map (·.1.index)).map fun i => lit "searcher_" ++ natStr i := by
    rw [List.map_map]
    exact List.map_congr_left fun x hx => (h.researched x hx).nodeId
  have hindices : (bs.map (·.1.index)).Perm (List.range (payloads w.settings qs).length) := by
    rw [← index_payloads]
    simpa [Function.comp_def] using h.perm.map (·.index)
  rw [hids]
  refine (hindices.nodup_iff.mpr List.nodup_range).map fun i j hij => ?_
  exact natStr_injective (List.append_cancel_left hij)

theorem Joined.onePerSend {w : World} {qs : List Str} {bs : List (Payload × BranchUpdate)}
    (h : Joined w qs bs) {s : ResearchState} (hresults : s.searchResults = [])
    (hsummaries : s.summaries = []) {sends : List (Send Node Payload)}
    (hsends : sends.map (·.arg) = payloads w.settings qs) :
    OnePerSend sends (joinedState s bs) := by
  rw [joinedState, appendBranches_eq, hresults, hsummaries]
  refine ⟨⟨bs, hsends ▸ h.perm, by simp, by simp, fun x hx => ?_⟩, ?_⟩
  · have hx := h.researched x hx
    exact ⟨hx.nodeId, hx.subQuestion, x.2.same.trans hx.subQuestion⟩
  · simpa [Function.comp_def] using h.nodup_nodeIds

/-- `assemble` runs in one phase only. -/
theorem Phase.joined_of_mem_pending {w : World} {s : ResearchState} {qs : List Str}
    {executed : List (Task Node Payload)} {n : Nat} {c : RunConfig}
    (h : Phase w s qs executed n c) (hmem : nodeTask .assemble ∈ c.pending) :
    ∃ bs, Joined w qs bs ∧ c.state = joinedState s bs := by
  cases h with
  | fannedOut =>
    obtain ⟨p, -, hp⟩ := List.mem_map.mp hmem
    cases hp
  | joined hjoined => exact ⟨_, hjoined, rfl⟩
  | assembled _ _ => cases List.mem_singleton.mp hmem
  | reported _ _ => cases hmem

/-- The node count of a completed run is the number of its node executions. -/
theorem Phase.nodeCount_of_done {w : World} {s : ResearchState} {qs : List Str} {c : RunConfig}
    (h : Phase w s qs [nodeTask .decompose] 1 c) (hne : qs ≠ []) (hqs : s.subQuestions = some qs)
    (hsummaries : s.summaries = []) (hdone : c.Done) {call : ResearchCall}
    (hsettings : call.settings = w.settings) :
    (call.costRow c.state).nodeCount = c.executed.length ∧
      c.executed.length = 3 + c.state.summaries.length := by
  obtain ⟨bs, u, hjoined, hassemble, rfl⟩ := h.of_done hne hdone
  have hlength : bs.length = min qs.length w.settings.maxSubQuestions := by
    rw [← length_payloads, ← hjoined.perm.length_eq, List.length_map]
  obtain ⟨-, -, -, x, -, rfl⟩ := assembleNode_eq_ok_iff.mp hassemble
  rw [apply_assembled, apply_reporterNode, joinedState, appendBranches_eq]
  simp only [Config.barrier, ResearchCall.costRow, hsettings, hsummaries, hqs, branchTasks]
  simp only [Option.getD_some, List.length_append, List.length_map, List.length_cons,
    List.length_nil, hlength]
  omega

/-! ## Exactly once -/

/-- The fan-out sends the first sub-questions, up to the cap, in order and
    numbered; no two tasks of a superstep ever write one plain channel; `assemble`
    finds one search result and one summary per `Send`; and the node count on
    the cost row is the number of nodes that ran. -/
theorem fanOut_exactlyOnce (w : World) (s : ResearchState) {qs : List Str} (hne : qs ≠ [])
    (hqs : s.subQuestions = some qs) (hresults : s.searchResults = [])
    (hsummaries : s.summaries = []) (limit : Nat) :
    ∃ sends, fanOutResearch w.settings s = .ok sends ∧
      sends = (qs.take w.settings.maxSubQuestions).mapIdx (fun i q => ⟨.research, ⟨q, i⟩⟩) ∧
      sends.length = min qs.length w.settings.maxSubQuestions ∧
      (∀ x ∈ sends, ∀ branch u, (researchNode w.settings branch x.arg).outcome = .ok u →
        MergesWhole w.settings branch x.arg u) ∧
      ∀ c, Reaches (buildGraph w) ResearchState.schema limit
          (.barrier s (sends.map Send.task) [nodeTask .decompose] 1) c →
        (ResearchState.schema.plainWrites (c.writes.map (·.2))).Nodup ∧
        (nodeTask .assemble ∈ c.pending → OnePerSend sends c.state) ∧
        (c.Done → ∀ call : ResearchCall, call.settings = w.settings →
          (call.costRow c.state).nodeCount = c.executed.length ∧
            c.executed.length = 3 + c.state.summaries.length) := by
  refine ⟨_, by rw [fanOutResearch_eq, hqs], List.ext_getElem (by simp [payloads])
    (by simp [payloads]), by rw [List.length_map, length_payloads],
    fun x _ branch u hu => mergesWhole_of_researchNode hu, fun c hreach => ?_⟩
  have hstart : Phase w s qs [nodeTask .decompose] 1 (.barrier s
      (((payloads w.settings qs).map fun p => ⟨.research, p⟩).map Send.task)
      [nodeTask .decompose] 1) := by
    rw [List.map_map]
    exact .fannedOut
  obtain ⟨b, hphase, hwithin⟩ :=
    hreach.within_of_invariant (fun hb hstep => hb.superstep hstep) rfl hstart
  refine ⟨hphase.nodup_plainWrites hwithin.perm hwithin.exec, fun hmem => ?_,
    fun hdone call hsettings => ?_⟩
  · have hmem' := hwithin.mem_pending _ _ hmem
    obtain ⟨bs, hjoined, hstate⟩ := hphase.joined_of_mem_pending hmem'
    rw [hwithin.state, hstate]
    exact hjoined.onePerSend hresults hsummaries (by simp [Function.comp_def])
  · have hend := hreach.invariant_of_done (fun hb hstep => Phase.superstep hb hstep) rfl hstart hdone
    exact hend.nodeCount_of_done hne hqs hsummaries hdone hsettings

omit [UnicodeData] in
/-- Two branches on one sub-question. -/
theorem fanOut_exactlyOnce_repeated :
    ∃ sends, fanOutResearch sunnyWorld.settings
        { subQuestions := some [lit "sub-question", lit "sub-question"] } = .ok sends ∧
      sends.length = 2 ∧
      (∀ x ∈ sends, ∀ branch u, (@researchNode .basicLatin sunnyWorld.settings branch x.arg).outcome =
        .ok u → @MergesWhole .basicLatin sunnyWorld.settings branch x.arg u) ∧
      ∀ c, Reaches (@buildGraph .basicLatin sunnyWorld) ResearchState.schema recursionLimit
          (.barrier { subQuestions := some [lit "sub-question", lit "sub-question"] }
            (sends.map Send.task) [nodeTask .decompose] 1) c →
        (ResearchState.schema.plainWrites (c.writes.map (·.2))).Nodup ∧
        (nodeTask .assemble ∈ c.pending → OnePerSend sends c.state) ∧
        (c.Done → ∀ call : ResearchCall, call.settings = sunnyWorld.settings →
          (call.costRow c.state).nodeCount = c.executed.length ∧
            c.executed.length = 3 + c.state.summaries.length) := by
  obtain ⟨sends, hsends, -, hlength, hmerges, hruns⟩ := @fanOut_exactlyOnce .basicLatin sunnyWorld
    { subQuestions := some [lit "sub-question", lit "sub-question"] } _ (by decide) rfl rfl rfl
    recursionLimit
  exact ⟨sends, hsends, hlength, hmerges, hruns⟩

end ResearchSynthesis
