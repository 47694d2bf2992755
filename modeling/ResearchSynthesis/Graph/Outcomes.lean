-- SUMMARY: What a run can raise, cause by cause, and that the order of the branches decides neither whether it does nor more than the order of what it returns.
import Mathlib.Data.Set.Card
import Mathlib.Data.List.Permutation
import ResearchSynthesis.Graph.FanOut
import ResearchSynthesis.Graph.Ordered
import ResearchSynthesis.Graph.Tracing

/-!
# Outcomes of a run

`main` validates the models before it runs the graph. Given that, the causes of
failure are the ones `World.Raises` lists, and a run that has none of them ends
in a state that is determined up to the order of its branches.
-/

namespace ResearchSynthesis
open Python StateGraph

variable [UnicodeData]

/-! ## What each node raises -/

omit [UnicodeData] in
/-- What `run_decompose` raises when the model's answer holds no decomposition. -/
def notDecomposed (result : IncludeRaw DecomposedQuestion) : Exn :=
  ⟨.valueError, lit "Failed to decompose into 3-5 sub-questions: " ++
    (result.parsingError.map (·.message)).getD (lit "None")⟩

theorem runDecompose_eq_error_iff {question modelName : Str} (hpriced : IsPriced modelName)
    {call : LlmCall (IncludeRaw DecomposedQuestion)} {e : Exn} :
    (runDecompose question modelName call).outcome = .error e ↔
      call.invoke (buildDecomposeMessages question) = .error e ∨
        ∃ result, call.invoke (buildDecomposeMessages question) = .ok result ∧
          result.parsed = none ∧ e = notDecomposed result := by
  obtain ⟨prices, hprices⟩ := hpriced
  rw [outcome_runDecompose, bind_eq_error_iff]
  refine or_congr_right (exists_congr fun result => and_congr_right fun _ => ?_)
  cases hparsed : result.parsed with
  | none => simp [notDecomposed, eq_comm]
  | some parsed =>
    obtain ⟨entry, hentry⟩ := @logLlmCall_of_priced _ (lit "supervisor_decompose") _
      (tokens result.raw).1 (tokens result.raw).2 call.latencyMs _ hprices
    simp [hentry, Except.map]

theorem decomposeNode_eq_error_iff {w : World} (hpriced : IsPriced w.settings.supervisorModel)
    {question : Str} {s : ResearchState} (hquestion : s.question = some question) {e : Exn} :
    (decomposeNode w.settings w.decomposeCall s).outcome = .error e ↔
      w.decomposeClients = .error e ∨
      (∃ config, w.decomposeClients = .ok config) ∧
        (w.decomposeCall.invoke (buildDecomposeMessages question) = .error e ∨
          ∃ result, w.decomposeCall.invoke (buildDecomposeMessages question) = .ok result ∧
            result.parsed = none ∧ e = notDecomposed result) := by
  have hrequire : s.requireQuestion = .ok question := requireQuestion_eq_ok_iff.mpr hquestion
  simp only [decomposeNode, Calling.outcome_bind, Calling.outcome_lift, bind_eq_error_iff, hrequire,
    Except.ok.injEq, exists_eq_left', reduceCtorEq, false_or, runDecompose_eq_error_iff hpriced,
    Calling.outcome_pure, and_false, exists_false, or_false, exists_and_right, World.decomposeClients]

theorem researchNode_eq_error_iff {settings : Settings} (hpriced : IsPriced settings.workerModel)
    {branch : Branch} {payload : Payload} {e : Exn} :
    (researchNode settings branch payload).outcome = .error e ↔
      branch.clients settings = .error e := by
  obtain ⟨x, hx⟩ :=
    runSummarize_of_priced hpriced (searchResultOf payload branch.tavily) branch.haiku
  simp [outcome_researchNode, bind_eq_error_iff, hx, pure, Except.pure]

theorem assembleNode_eq_error_iff {w : World} (hpriced : IsPriced w.settings.supervisorModel)
    {question : Str} {s : ResearchState} (hquestion : s.question = some question) {e : Exn} :
    (assembleNode w.settings w.assembleCall s).outcome = .error e ↔
      w.assembleClients = .error e := by
  have hrequire : s.requireQuestion = .ok question := requireQuestion_eq_ok_iff.mpr hquestion
  obtain ⟨x, hx⟩ := runAssemble_of_priced hpriced question s.summaries w.assembleCall
  simp [assembleNode, bind_eq_error_iff, hrequire, hx, World.assembleClients]

/-! ## Causes of failure -/

/-- A cause for which a run of the graph raises `e`: a client that cannot be made,
    or a decompose call that raises or brings no decomposition. -/
inductive World.Raises (w : World) (question : Str) (e : Exn) : Prop where
  | decomposeClients (h : w.decomposeClients = .error e)
  | decomposeCall (hclients : ∃ config, w.decomposeClients = .ok config)
      (h : w.decomposeCall.invoke (buildDecomposeMessages question) = .error e)
  | notDecomposed {result : IncludeRaw DecomposedQuestion}
      (hclients : ∃ config, w.decomposeClients = .ok config)
      (hinvoke : w.decomposeCall.invoke (buildDecomposeMessages question) = .ok result)
      (hparsed : result.parsed = none) (h : e = notDecomposed result)
  | branchClients {decomposed : DecomposedQuestion} {i : Nat}
      (hclients : ∃ config, w.decomposeClients = .ok config)
      (hdecomposes : w.Decomposes question decomposed)
      (hi : i < min decomposed.subQuestions.length w.settings.maxSubQuestions)
      (h : (w.branch i).clients w.settings = .error e)
  | assembleClients {decomposed : DecomposedQuestion}
      (hclients : ∃ config, w.decomposeClients = .ok config)
      (hdecomposes : w.Decomposes question decomposed)
      (hbranches : ∀ i < min decomposed.subQuestions.length w.settings.maxSubQuestions,
        ∃ config, (w.branch i).clients w.settings = .ok config)
      (h : w.assembleClients = .error e)

section
variable {w : World} {question : Str}

/-- A decomposition makes the decompose node return, if its clients can be made. -/
theorem exists_decomposeNode (hmodels : validateModels w.settings = .ok ())
    (hclients : ∃ config, w.decomposeClients = .ok config) {decomposed : DecomposedQuestion}
    (hdecomposes : w.Decomposes question decomposed) :
    ∃ u, (decomposeNode w.settings w.decomposeCall { question := some question }).outcome = .ok u ∧
      u.subQuestions = some decomposed.subQuestions := by
  obtain ⟨prices, hprices⟩ := (validateModels_eq_ok_iff.mp hmodels).1
  obtain ⟨result, hinvoke, hparsed⟩ := hdecomposes
  obtain ⟨entry, hentry⟩ := logLlmCall_of_priced hprices
  exact ⟨_, decomposeNode_eq_ok_iff.mpr ⟨question, rfl, hclients, (decomposed, entry),
    runDecompose_eq_ok_iff.mpr ⟨result, hinvoke, hparsed, hentry⟩, rfl⟩, rfl⟩

theorem raises_of_pipeline (hmodels : validateModels w.settings = .ok ()) {order : Order Payload}
    {e : Exn} (h : w.pipeline question order = .error e) : w.Raises question e := by
  obtain ⟨hsupervisor, hworker⟩ := validateModels_eq_ok_iff.mp hmodels
  cases hdecompose : (decomposeNode w.settings w.decomposeCall
      { question := some question }).outcome with
  | error e' =>
    obtain rfl := Except.error.inj ((pipeline_of_decompose_error hdecompose).symm.trans h)
    rcases (decomposeNode_eq_error_iff hsupervisor rfl).mp hdecompose with
      hmake | ⟨hclients, hcall | ⟨result, hinvoke, hparsed, rfl⟩⟩
    · exact .decomposeClients hmake
    · exact .decomposeCall hclients hcall
    · exact .notDecomposed hclients hinvoke hparsed rfl
  | ok u =>
    obtain ⟨-, -, hclients, -⟩ := decomposeNode_eq_ok_iff.mp hdecompose
    obtain ⟨decomposed, hdecomposes, hqs⟩ := decomposes_of_decomposeNode rfl hdecompose
    have hperm := order.perm (payloads w.settings decomposed.subQuestions)
    cases hbranches : (order.arrange (payloads w.settings decomposed.subQuestions)).mapM fun p =>
        (researchNode w.settings (w.branch p.index) p).outcome with
    | error e' =>
      obtain rfl := Except.error.inj ((pipeline_of_branch_error hdecompose hqs hbranches).symm.trans h)
      obtain ⟨p, hp, hraised⟩ := mapM_error hbranches
      exact .branchClients hclients hdecomposes (index_lt_of_mem_payloads (hperm.mem_iff.mp hp))
        ((researchNode_eq_error_iff hworker).mp hraised)
    | ok us =>
      obtain ⟨bs, hps, rfl, hbs⟩ := mapM_researchNode_iff.mp hbranches
      rw [pipeline_of_branches hdecompose hqs hbranches, bind_eq_error_iff] at h
      have hraised := h.resolve_right (by simp [pure, Except.pure])
      have hquestion := question_joined_of_decomposed hdecompose bs
      refine .assembleClients hclients hdecomposes (fun i hi => ?_)
        ((assembleNode_eq_error_iff hsupervisor hquestion).mp hraised)
      obtain ⟨p, hp, rfl⟩ := exists_mem_payloads hi
      obtain ⟨x, hx, rfl⟩ := List.mem_map.mp (hps ▸ hperm.mem_iff.mpr hp)
      exact (hbs x hx).1

/-- A branch that raises takes the pipeline down in every order, and is the one to
    do so where it comes first. -/
theorem pipeline_of_branch_raises {u : Update} {qs : List Str}
    (hdecompose : (decomposeNode w.settings w.decomposeCall
      { question := some question }).outcome = .ok u)
    (hqs : u.subQuestions = some qs) {p : Payload} (hp : p ∈ payloads w.settings qs) {e : Exn}
    (hraised : (researchNode w.settings (w.branch p.index) p).outcome = .error e) :
    (∃ order, w.pipeline question order = .error e) ∧
      ∀ order, ∃ e', w.pipeline question order = .error e' := by
  constructor
  · obtain ⟨before, after, hsplit⟩ := List.append_of_mem hp
    have hperm : (p :: (before ++ after)).Perm (payloads w.settings qs) :=
      hsplit ▸ List.perm_middle.symm
    refine ⟨.of hperm, pipeline_of_branch_error hdecompose hqs ?_⟩
    rw [Order.arrange_of]
    exact mapM_cons_error hraised
  · intro order
    cases hbranches : (order.arrange (payloads w.settings qs)).mapM fun p =>
        (researchNode w.settings (w.branch p.index) p).outcome with
    | error e' => exact ⟨e', pipeline_of_branch_error hdecompose hqs hbranches⟩
    | ok us =>
      obtain ⟨ws, hps, -, hws⟩ := mapM_eq_ok_iff.mp hbranches
      obtain ⟨x, hx, rfl⟩ := List.mem_map.mp (hps ▸ (order.perm _).mem_iff.mpr hp)
      cases hraised.symm.trans (hws x hx)

/-- Without its clients the assembly takes the pipeline down. -/
theorem pipeline_of_assembleClients (hmodels : validateModels w.settings = .ok ())
    {decomposed : DecomposedQuestion} (hclients : ∃ config, w.decomposeClients = .ok config)
    (hdecomposes : w.Decomposes question decomposed)
    (hbranches : ∀ i < min decomposed.subQuestions.length w.settings.maxSubQuestions,
      ∃ config, (w.branch i).clients w.settings = .ok config) {e : Exn}
    (h : w.assembleClients = .error e) (order : Order Payload) :
    w.pipeline question order = .error e := by
  obtain ⟨hsupervisor, hworker⟩ := validateModels_eq_ok_iff.mp hmodels
  obtain ⟨u, hdecompose, hqs⟩ := exists_decomposeNode hmodels hclients hdecomposes
  have hok : ∀ p ∈ order.arrange (payloads w.settings decomposed.subQuestions),
      ∃ u, (researchNode w.settings (w.branch p.index) p).outcome = .ok u := by
    intro p hp
    obtain ⟨config, hconfig⟩ :=
      hbranches p.index (index_lt_of_mem_payloads ((order.perm _).mem_iff.mp hp))
    cases hrun : (researchNode w.settings (w.branch p.index) p).outcome with
    | ok u => exact ⟨u, rfl⟩
    | error e' => cases hconfig.symm.trans ((researchNode_eq_error_iff hworker).mp hrun)
  obtain ⟨us, hus⟩ := exists_mapM_ok hok
  obtain ⟨bs, -, rfl, -⟩ := mapM_researchNode_iff.mp hus
  rw [pipeline_of_branches hdecompose hqs hus, bind_eq_error_iff]
  have hquestion := question_joined_of_decomposed hdecompose bs
  exact .inl ((assembleNode_eq_error_iff hsupervisor hquestion).mpr h)

/-- Whatever the order of the branches, a cause of failure takes the pipeline down,
    and some order makes it the cause. -/
theorem pipeline_of_raises (hmodels : validateModels w.settings = .ok ()) {e : Exn}
    (h : w.Raises question e) :
    (∃ order, w.pipeline question order = .error e) ∧
      ∀ order, ∃ e', w.pipeline question order = .error e' := by
  obtain ⟨hsupervisor, hworker⟩ := validateModels_eq_ok_iff.mp hmodels
  have hfirst (hdecompose :
      (decomposeNode w.settings w.decomposeCall { question := some question }).outcome = .error e) :
      (∃ order, w.pipeline question order = .error e) ∧
        ∀ order, ∃ e', w.pipeline question order = .error e' :=
    ⟨⟨.keep, pipeline_of_decompose_error hdecompose⟩,
      fun _ => ⟨e, pipeline_of_decompose_error hdecompose⟩⟩
  cases h with
  | decomposeClients h => exact hfirst ((decomposeNode_eq_error_iff hsupervisor rfl).mpr (.inl h))
  | decomposeCall hclients h =>
    exact hfirst ((decomposeNode_eq_error_iff hsupervisor rfl).mpr (.inr ⟨hclients, .inl h⟩))
  | notDecomposed hclients hinvoke hparsed h =>
    exact hfirst ((decomposeNode_eq_error_iff hsupervisor rfl).mpr
      (.inr ⟨hclients, .inr ⟨_, hinvoke, hparsed, h⟩⟩))
  | branchClients hclients hdecomposes hi h =>
    obtain ⟨u, hdecompose, hqs⟩ := exists_decomposeNode hmodels hclients hdecomposes
    obtain ⟨p, hp, rfl⟩ := exists_mem_payloads hi
    exact pipeline_of_branch_raises hdecompose hqs hp ((researchNode_eq_error_iff hworker).mpr h)
  | assembleClients hclients hdecomposes hbranches h =>
    have hall := pipeline_of_assembleClients hmodels hclients hdecomposes hbranches h
    exact ⟨⟨.keep, hall _⟩, fun order => ⟨e, hall order⟩⟩

end

section
variable {w : World} {question : Str} {limit : Nat}

theorem raises_of_ainvokes (hmodels : validateModels w.settings = .ok ()) (hlimit : 4 < limit)
    {e : Exn} (h : w.Ainvokes question limit (.error e)) : w.Raises question e := by
  obtain ⟨order, horder⟩ := exists_pipeline_of_ainvokes hlimit h
  exact raises_of_pipeline hmodels horder

theorem ainvokes_of_raises (hmodels : validateModels w.settings = .ok ()) (hlimit : 4 < limit)
    {e : Exn} (h : w.Raises question e) : w.Ainvokes question limit (.error e) := by
  obtain ⟨order, horder⟩ := (pipeline_of_raises hmodels h).1
  exact horder ▸ ainvokes_pipeline w question hlimit order

theorem not_raises_of_ainvokes (hmodels : validateModels w.settings = .ok ()) (hlimit : 4 < limit)
    {s : ResearchState} (h : w.Ainvokes question limit (.ok s)) (e : Exn) :
    ¬ w.Raises question e := by
  intro hraises
  obtain ⟨order, horder⟩ := exists_pipeline_of_ainvokes hlimit h
  obtain ⟨e', he'⟩ := (pipeline_of_raises hmodels hraises).2 order
  cases horder.symm.trans he'

end

/-- With priced models and a limit of five or more, a run raises exactly the errors
    that have a cause, and it can end exactly when nothing has: neither the order
    of the branches nor that of merging them decides between the two, and the graph
    raises no error of its own. -/
theorem ainvokes_error_iff {w : World} (hmodels : validateModels w.settings = .ok ())
    (question : Str) {limit : Nat} (hlimit : 4 < limit) :
    (∀ e, w.Ainvokes question limit (.error e) ↔ w.Raises question e) ∧
      ((∃ s, w.Ainvokes question limit (.ok s)) ↔ ∀ e, ¬ w.Raises question e) ∧
      (∀ e, w.AinvokesInOrder question limit (.error e) ↔ w.Raises question e) ∧
      ((∃ s, w.AinvokesInOrder question limit (.ok s)) ↔ ∀ e, ¬ w.Raises question e) := by
  have hraises (e : Exn) : w.Ainvokes question limit (.error e) ↔ w.Raises question e :=
    ⟨raises_of_ainvokes hmodels hlimit, ainvokes_of_raises hmodels hlimit⟩
  refine ⟨hraises, ⟨fun ⟨s, hs⟩ => not_raises_of_ainvokes hmodels hlimit hs, fun h => ?_⟩,
    fun e => ⟨fun he => (hraises e).mp he.ainvokes, fun he => ?_⟩,
    fun ⟨s, hs⟩ => not_raises_of_ainvokes hmodels hlimit hs.ainvokes, fun h => ?_⟩
  · obtain ⟨r, hr⟩ := exists_ainvokes w question limit
    cases r with
    | ok s => exact ⟨s, hr⟩
    | error e => exact absurd ((hraises e).mp hr) (h e)
  · obtain ⟨order, horder⟩ := (pipeline_of_raises hmodels he).1
    exact ainvokesInOrder_of_error hlimit horder
  · have hordered := ainvokesInOrder_pipeline w question hlimit
    cases hp : w.pipeline question .keep with
    | ok s => exact ⟨s, hp ▸ hordered⟩
    | error e => exact absurd (raises_of_pipeline hmodels hp) (h e)

omit [UnicodeData] in
/-- The sunny world, with a Tavily key that the search client does not take. -/
def lockedWorld : World :=
  { sunnyWorld with
    branch := fun i =>
      { sunnyWorld.branch i with
        tavilyClient := fun _ => .error ⟨.other, lit "'ascii' codec can't encode"⟩ } }

omit [UnicodeData] in
theorem ainvokes_error_lockedWorld :
    @World.Ainvokes .basicLatin lockedWorld (lit "question") recursionLimit
        (.error ⟨.other, lit "'ascii' codec can't encode"⟩) ∧
      (¬ ∃ s, @World.Ainvokes .basicLatin lockedWorld (lit "question") recursionLimit (.ok s)) ∧
      ¬ ∃ s, @World.AinvokesInOrder .basicLatin lockedWorld (lit "question") recursionLimit
        (.ok s) := by
  have hraises : lockedWorld.Raises (lit "question") ⟨.other, lit "'ascii' codec can't encode"⟩ :=
    .branchClients (i := 0) ⟨{}, rfl⟩ ⟨_, rfl, rfl⟩ (by decide) rfl
  obtain ⟨herror, hok, -, hordered⟩ := @ainvokes_error_iff .basicLatin lockedWorld
    (@validateModels_of_default .basicLatin _ rfl rfl) (lit "question") recursionLimit (by decide)
  exact ⟨(herror _).mpr hraises, fun h => hok.mp h _ hraises, fun h => hordered.mp h _ hraises⟩

/-! ## States up to the order of the branches -/

theorem Researched.unique {settings : Settings} {branch : Branch} {payload : Payload}
    {b b' : BranchUpdate} (h : Researched settings branch payload b)
    (h' : Researched settings branch payload b') : b = b' := by
  cases b with | mk searchResult summary entry hsame =>
  cases b' with | mk searchResult' summary' entry' hsame' =>
  obtain rfl : searchResult = searchResult' := h.searchResult.trans h'.searchResult.symm
  have hsummarized := h.summarized.symm.trans h'.summarized
  rw [Except.ok.injEq, Summarized.mk.injEq] at hsummarized
  obtain ⟨rfl, rfl⟩ := hsummarized
  rfl

section
variable {w : World} {qs : List Str} {bs bs' : List (Payload × BranchUpdate)}

/-- What a branch adds depends on its payload alone. -/
theorem Joined.eq_of_mem (h : Joined w qs bs) (h' : Joined w qs bs')
    {x x' : Payload × BranchUpdate} (hx : x ∈ bs) (hx' : x' ∈ bs') (hsame : x.1 = x'.1) : x = x' := by
  have hresearched := h'.researched x' hx'
  rw [← hsame] at hresearched
  exact Prod.ext hsame ((h.researched x hx).unique hresearched)

theorem Joined.mem_of_mem (h : Joined w qs bs) (h' : Joined w qs bs')
    {x : Payload × BranchUpdate} (hx : x ∈ bs) : x ∈ bs' := by
  have hpayload := h'.perm.mem_iff.mpr (h.perm.mem_iff.mp (List.mem_map_of_mem hx))
  obtain ⟨x', hx', hsame⟩ := List.mem_map.mp hpayload
  rw [h.eq_of_mem h' hx hx' hsame.symm]
  exact hx'

theorem Joined.nodup (h : Joined w qs bs) : bs.Nodup :=
  List.Nodup.of_map (·.1) (h.perm.nodup_iff.mpr (nodup_payloads w.settings qs))

/-- Joins of one fan-out are the same up to order. -/
theorem Joined.perm_branches (h : Joined w qs bs) (h' : Joined w qs bs') : bs.Perm bs' :=
  (List.perm_ext_iff_of_nodup h.nodup h'.nodup).mpr fun _ =>
    ⟨fun hx => h.mem_of_mem h' hx, fun hx => h'.mem_of_mem h hx⟩

/-- The search results, which carry the branches' node ids, tell the order. -/
theorem Joined.eq_of_searchResults (h : Joined w qs bs) (h' : Joined w qs bs')
    (hresults : bs.map (·.2.searchResult) = bs'.map (·.2.searchResult)) : bs = bs' := by
  have hlength : bs.length = bs'.length := by simpa using congrArg List.length hresults
  refine List.ext_getElem hlength fun i hi hi' => ?_
  have hsame := List.getElem_of_eq hresults (i := i) (by simpa using hi)
  rw [List.getElem_map, List.getElem_map] at hsame
  exact List.inj_on_of_nodup_map h.nodup_nodeIds (List.getElem_mem hi)
    (h'.mem_of_mem h (List.getElem_mem hi')) (congrArg SearchResult.nodeId hsame)

end

/-- The same state, the branches in another order perhaps. Only the entry of the
    assembly, the last one, can differ otherwise, with the framing: the model is
    shown the summaries in their order. -/
structure ResearchState.SameUpToOrder (s s' : ResearchState) : Prop where
  question : s.question = s'.question
  subQuestions : s.subQuestions = s'.subQuestions
  searchResults : s.searchResults.Perm s'.searchResults
  summaries : s.summaries.Perm s'.summaries
  costLog : s.costLog.dropLast.Perm s'.costLog.dropLast
  determined : s.searchResults = s'.searchResults → s = s'

section
variable {w : World} {question : Str}

theorem Completion.decomposed_unique (k k' : Completion w question) :
    k.decomposed = k'.decomposed ∧ k.decomposeEntry = k'.decomposeEntry :=
  Prod.mk.inj (Except.ok.inj (k.decomposes.symm.trans k'.decomposes))

/-- The cost log without the entry of the assembly. -/
theorem Completion.dropLast_costLog (k : Completion w question) :
    k.state.costLog.dropLast = [k.decomposeEntry] ++ k.branches.filterMap (·.2.entry) := by
  simp only [Completion.state, Completion.reporterState, List.dropLast_concat]

theorem Completion.state_eq_of_branches {k k' : Completion w question}
    (h : k.branches = k'.branches) : k.state = k'.state := by
  obtain ⟨hdecomposed, hentry⟩ := k.decomposed_unique k'
  have hassembles := k.assembles
  rw [h, k'.assembles] at hassembles
  obtain ⟨hassembled, hassembleEntry⟩ := Prod.mk.inj (Except.ok.inj hassembles)
  simp only [Completion.state, Completion.reporterState, hdecomposed, hentry, h, hassembled,
    hassembleEntry]

theorem Completion.sameUpToOrder (k k' : Completion w question) :
    k.state.SameUpToOrder k'.state := by
  obtain ⟨hdecomposed, hentry⟩ := k.decomposed_unique k'
  have hjoined := k'.joined
  rw [← hdecomposed] at hjoined
  have hperm := k.joined.perm_branches hjoined
  refine ⟨rfl, congrArg (fun d : DecomposedQuestion => some d.subQuestions) hdecomposed,
    hperm.map _, hperm.map _, ?_,
    fun hresults => state_eq_of_branches (k.joined.eq_of_searchResults hjoined hresults)⟩
  rw [k.dropLast_costLog, k'.dropLast_costLog, hentry]
  exact (hperm.filterMap _).append_left _

end

theorem exists_completion_of_ainvokes {w : World} {question : Str} {limit : Nat}
    {s : ResearchState} (h : w.Ainvokes question limit (.ok s)) :
    ∃ k : Completion w question, s = k.state := by
  cases h with
  | returns hreach hdone =>
    obtain ⟨k, hstate, -⟩ := exists_completion hreach hdone
    exact ⟨k, hstate⟩

open Nat in
/-- All states in which a run can end are one up to the order of the branches, and
    there are no more of them than orders. -/
theorem ainvokes_confluent (w : World) (question : Str) (limit : Nat) {s : ResearchState}
    (h : w.Ainvokes question limit (.ok s)) :
    (∀ s', w.Ainvokes question limit (.ok s') → s.SameUpToOrder s') ∧
      {s' | w.Ainvokes question limit (.ok s')}.Finite ∧
      {s' | w.Ainvokes question limit (.ok s')}.ncard ≤ s.searchResults.length ! := by
  classical
  have hsame {t t' : ResearchState} (ht : w.Ainvokes question limit (.ok t))
      (ht' : w.Ainvokes question limit (.ok t')) : t.SameUpToOrder t' := by
    obtain ⟨k, rfl⟩ := exists_completion_of_ainvokes ht
    obtain ⟨k', rfl⟩ := exists_completion_of_ainvokes ht'
    exact k.sameUpToOrder k'
  let orders : Set (List SearchResult) := s.searchResults.permutations.toFinset
  have hmaps : Set.MapsTo ResearchState.searchResults
      {s' | w.Ainvokes question limit (.ok s')} orders := by
    intro s' hs'
    simpa [orders] using (hsame h hs').searchResults.symm
  have hinj : Set.InjOn ResearchState.searchResults {s' | w.Ainvokes question limit (.ok s')} :=
    fun t ht t' ht' heq => (hsame ht ht').determined heq
  have hfinite : orders.Finite := Finset.finite_toSet _
  refine ⟨fun s' hs' => hsame h hs', .of_injOn hmaps hinj hfinite, ?_⟩
  calc {s' | w.Ainvokes question limit (.ok s')}.ncard
      ≤ orders.ncard := Set.ncard_le_ncard_of_injOn _ hmaps hinj hfinite
    _ = s.searchResults.permutations.toFinset.card := Set.ncard_coe_finset _
    _ ≤ s.searchResults.permutations.length := List.toFinset_card_le _
    _ = s.searchResults.length ! := List.length_permutations _

omit [UnicodeData] in
open Nat in
theorem ainvokes_confluent_sunnyWorld :
    ∃ s, @World.Ainvokes .basicLatin sunnyWorld (lit "question") recursionLimit (.ok s) ∧
      {s' | @World.Ainvokes .basicLatin sunnyWorld (lit "question") recursionLimit (.ok s')}.ncard ≤
        s.searchResults.length ! := by
  obtain ⟨c, hreach, hdone⟩ := @exists_done_of_reaches .basicLatin sunnyWorld (lit "question")
    (@sound_sunnyWorld .basicLatin _) recursionLimit (by decide) _ .refl
  have hreturns : @World.Ainvokes .basicLatin sunnyWorld (lit "question") recursionLimit
      (.ok c.state) := @ainvokes_of_done .basicLatin _ _ _ (by decide) c hreach hdone
  exact ⟨c.state, hreturns,
    (@ainvokes_confluent .basicLatin sunnyWorld (lit "question") recursionLimit _ hreturns).2.2⟩

end ResearchSynthesis
