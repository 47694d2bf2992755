-- SUMMARY: The runs of the research graph, phase by phase: fan-out, branches in any order, assemble, reporter.
import ResearchSynthesis.Graph.Branch

/-!
# Runs of the research graph

A run passes through four supersteps. `Phase` says where it can be when a
superstep begins, from the fan-out on, whatever state the fan-out starts with;
`RunPhase` adds the decomposition in front.
-/

namespace ResearchSynthesis
open Python StateGraph

abbrev RunConfig := Config Node ResearchState Payload Update

/-! ## Tasks -/

/-- The payloads of the `Send`s, in order. -/
def payloads (settings : Settings) (subQuestions : List Str) : List Payload :=
  (subQuestions.take settings.maxSubQuestions).mapIdx fun i q => ⟨q, i⟩

def nodeTask (n : Node) : Task Node Payload := ⟨n, none⟩

def branchTask (payload : Payload) : Task Node Payload := ⟨.research, some payload⟩

theorem length_payloads (settings : Settings) (subQuestions : List Str) :
    (payloads settings subQuestions).length =
      min subQuestions.length settings.maxSubQuestions := by
  simp [payloads, Nat.min_comm]

theorem index_payloads (settings : Settings) (subQuestions : List Str) :
    (payloads settings subQuestions).map (·.index) =
      List.range (payloads settings subQuestions).length :=
  List.ext_getElem (by simp) (by simp [payloads])

theorem index_lt_of_mem_payloads {settings : Settings} {subQuestions : List Str} {p : Payload}
    (h : p ∈ payloads settings subQuestions) :
    p.index < min subQuestions.length settings.maxSubQuestions := by
  rw [← length_payloads, ← List.mem_range, ← index_payloads]
  exact List.mem_map_of_mem h

theorem exists_mem_payloads {settings : Settings} {subQuestions : List Str} {i : Nat}
    (h : i < min subQuestions.length settings.maxSubQuestions) :
    ∃ p ∈ payloads settings subQuestions, p.index = i := by
  rw [← length_payloads, ← List.mem_range, ← index_payloads] at h
  simpa using h

theorem nodup_payloads (settings : Settings) (qs : List Str) : (payloads settings qs).Nodup :=
  List.Nodup.of_map (·.index) (index_payloads settings qs ▸ List.nodup_range)

theorem subQuestion_payloads (settings : Settings) (subQuestions : List Str) :
    (payloads settings subQuestions).map (·.subQuestion) =
      subQuestions.take settings.maxSubQuestions :=
  List.ext_getElem (by simp [payloads]) (by simp [payloads])

theorem payloads_ne_nil {settings : Settings} {subQuestions : List Str} (h : subQuestions ≠ []) :
    payloads settings subQuestions ≠ [] := by
  have := settings.maxSubQuestions_pos
  have := List.length_pos_iff.mpr h
  rw [← List.length_pos_iff, length_payloads]
  omega

theorem fanOutResearch_eq (settings : Settings) (state : ResearchState) :
    fanOutResearch settings state = match state.subQuestions with
      | none => .error ⟨.keyError, lit "'sub_questions'"⟩
      | some qs => .ok ((payloads settings qs).map fun p => ⟨.research, p⟩) := by
  unfold fanOutResearch payloads
  cases state.subQuestions with
  | none => rfl
  | some qs => exact congrArg Except.ok (List.ext_getElem (by simp) (by simp))

/-! ## Merging -/

theorem nodup_plainWrites_of_length_le_one {us : List Update} (h : us.length ≤ 1) :
    (ResearchState.schema.plainWrites us).Nodup := by
  rcases us with _ | ⟨u, _ | ⟨v, us⟩⟩
  · exact List.nodup_nil
  · rw [Schema.plainWrites, List.flatMap_singleton]
    exact u.nodup_keys.filter _
  · simp at h

/-- One update never collides with itself. -/
theorem applyWrites_singleton (s : ResearchState) (u : Update) :
    ResearchState.schema.applyWrites s [u] = some (s.apply u) :=
  (Schema.applyWrites_eq_some_iff _).mpr ⟨nodup_plainWrites_of_length_le_one le_rfl, rfl⟩

theorem plainWrites_eq_nil {us : List Update} (h : ∀ u ∈ us, ∀ k ∈ u.keys, k.isReducer) :
    ResearchState.schema.plainWrites us = [] := by
  rw [Schema.plainWrites, List.filter_eq_nil_iff]
  intro k hk
  obtain ⟨u, hu, hk⟩ := List.mem_flatMap.mp hk
  simp [ResearchState.schema, h u hu k hk]

/-- Branches never collide with each other. -/
theorem applyWrites_branches (s : ResearchState) (bs : List BranchUpdate) :
    ResearchState.schema.applyWrites s (bs.map BranchUpdate.update) =
      some (s.appendBranches bs) := by
  have hplain : ResearchState.schema.plainWrites (bs.map BranchUpdate.update) = [] := by
    refine plainWrites_eq_nil fun u hu k hk => ?_
    obtain ⟨b, -, rfl⟩ := List.mem_map.mp hu
    exact b.isReducer_of_mem_keys hk
  rw [Schema.applyWrites_eq_some_iff, hplain]
  exact ⟨List.nodup_nil, rfl⟩

variable [UnicodeData]

/-! ## What the last two nodes write -/

omit [UnicodeData] in
theorem apply_assembled (s : ResearchState) (report : AssembledReport) (entry : CostEntry) :
    s.apply { reportIntro := some report.executiveSummary
              reportConclusion := some report.conclusion
              costLog := some [entry] } =
      { s with
        reportIntro := some report.executiveSummary
        reportConclusion := some report.conclusion
        costLog := s.costLog ++ [entry] } := by
  simp [ResearchState.apply]

theorem apply_reporterNode (s t : ResearchState) :
    s.apply (reporterNode t) = { s with finalReport := some (reportText t) } := by
  simp [ResearchState.apply, reporterNode]

/-! ## What runs next -/

theorem next_decompose (w : World) (s : ResearchState) :
    (buildGraph w).next [.decompose] s =
      (fanOutResearch w.settings s).map fun sends => sends.map Send.task := by
  have hnext : (buildGraph w).next [.decompose] s = do
      let sends ← fanOutResearch w.settings s
      return [sends].flatten.map Send.task ++ [] := by
    simp [Graph.next, buildGraph, Graph.targets]
  rw [hnext]
  cases fanOutResearch w.settings s <;> simp [bind, Except.bind, pure, Except.pure, Except.map]

theorem targets_eq (w : World) (ran : List Node) :
    (buildGraph w).targets ran =
      ((if .research ∈ ran then [.assemble] else []) ++
        (if .assemble ∈ ran then [.reporter] else [])) := by
  by_cases hresearch : Node.research ∈ ran <;> by_cases hassemble : Node.assemble ∈ ran <;>
    simp [Graph.targets, buildGraph, hresearch, hassemble]

theorem next_of_not_mem_decompose (w : World) (s : ResearchState) {ran : List Node}
    (h : Node.decompose ∉ ran) :
    (buildGraph w).next ran s = .ok (((buildGraph w).targets ran).map nodeTask) := by
  have hfilter : (buildGraph w).conditionalEdges.filter (·.1 ∈ ran) = [] := by
    simp [buildGraph, h]
  rw [Graph.next, hfilter]
  rfl

/-! ## Phases -/

/-- The branches of a fan-out in the order in which they finish. -/
structure Joined (w : World) (subQuestions : List Str) (bs : List (Payload × BranchUpdate)) :
    Prop where
  perm : (bs.map (·.1)).Perm (payloads w.settings subQuestions)
  researched : ∀ x ∈ bs, Researched w.settings (w.branch x.1.index) x.1 x.2

/-- The state once the branches have been joined. -/
abbrev joinedState (s : ResearchState) (bs : List (Payload × BranchUpdate)) : ResearchState :=
  s.appendBranches (bs.map (·.2))

def branchTasks (bs : List (Payload × BranchUpdate)) : List (Task Node Payload) :=
  bs.map fun x => branchTask x.1

/-- Where a run is when a superstep begins, if it was in state `s` when the
    sub-questions `qs` were fanned out, `n` supersteps into the run. -/
inductive Phase (w : World) (s : ResearchState) (qs : List Str) (executed : List (Task Node Payload))
    (n : Nat) : RunConfig → Prop where
  | fannedOut : Phase w s qs executed n
      (.barrier s ((payloads w.settings qs).map branchTask) executed n)
  | joined {bs : List (Payload × BranchUpdate)} (hjoined : Joined w qs bs) :
      Phase w s qs executed n
        (.barrier (joinedState s bs) [nodeTask .assemble] (executed ++ branchTasks bs) (n + 1))
  | assembled {bs : List (Payload × BranchUpdate)} {u : Update} (hjoined : Joined w qs bs)
      (hassemble : (assembleNode w.settings w.assembleCall (joinedState s bs)).outcome = .ok u) :
      Phase w s qs executed n
        (.barrier ((joinedState s bs).apply u) [nodeTask .reporter]
          (executed ++ branchTasks bs ++ [nodeTask .assemble]) (n + 2))
  | reported {bs : List (Payload × BranchUpdate)} {u : Update} (hjoined : Joined w qs bs)
      (hassemble : (assembleNode w.settings w.assembleCall (joinedState s bs)).outcome = .ok u) :
      Phase w s qs executed n
        (.barrier (((joinedState s bs).apply u).apply (reporterNode ((joinedState s bs).apply u))) []
          (executed ++ branchTasks bs ++ [nodeTask .assemble, nodeTask .reporter]) (n + 3))

/-- Tasks that all belong to branches, with the updates they returned. -/
theorem exists_joined {w : World} {s : ResearchState} {qs : List Str}
    {ws : List (Task Node Payload × Update)}
    (hperm : (ws.map (·.1)).Perm ((payloads w.settings qs).map branchTask))
    (hexec : ∀ x ∈ ws, (buildGraph w).exec x.1.node s x.1.arg = .ok x.2) :
    ∃ bs, Joined w qs bs ∧ ws.map (·.1) = branchTasks bs ∧
      ws.map (·.2) = (bs.map (·.2)).map BranchUpdate.update := by
  have hbranch : ∀ x ∈ ws, ∃ p b, x = (branchTask p, b.update) ∧
      Researched w.settings (w.branch p.index) p b := by
    intro x hx
    obtain ⟨p, -, hp⟩ := List.mem_map.mp (hperm.mem_iff.mp (List.mem_map_of_mem hx))
    have hrun := hexec x hx
    rw [← hp] at hrun
    obtain ⟨-, b, hb, hu⟩ := researchNode_eq_ok_iff.mp hrun
    exact ⟨p, b, Prod.ext hp.symm hu, hb⟩
  obtain ⟨bs, hws, hbs⟩ : ∃ bs : List (Payload × BranchUpdate),
      ws = bs.map (fun x => (branchTask x.1, x.2.update)) ∧
        ∀ x ∈ bs, Researched w.settings (w.branch x.1.index) x.1 x.2 := by
    clear hperm hexec
    induction ws with
    | nil => exact ⟨[], rfl, by simp⟩
    | cons x ws ih =>
      obtain ⟨p, b, rfl, hb⟩ := hbranch x (by simp)
      obtain ⟨bs, rfl, hbs⟩ := ih fun y hy => hbranch y (List.mem_cons_of_mem _ hy)
      exact ⟨(p, b) :: bs, rfl, List.forall_mem_cons.mpr ⟨hb, hbs⟩⟩
  subst hws
  have hinj : Function.Injective branchTask := fun p p' h => by
    simpa [branchTask] using h
  refine ⟨bs, ⟨?_, hbs⟩, by simp [branchTasks, Function.comp_def], by simp [Function.comp_def]⟩
  rw [← List.map_perm_map_iff hinj]
  simpa [Function.comp_def] using hperm

/-- The superstep of the branches joins them, in the order in which they finished. -/
theorem exists_joined_of_superstep {w : World} {s : ResearchState} {qs : List Str}
    {executed : List (Task Node Payload)} {n limit : Nat} {c : RunConfig}
    (h : Superstep (buildGraph w) ResearchState.schema limit
      (.barrier s ((payloads w.settings qs).map branchTask) executed n) c) :
    ∃ bs, Joined w qs bs ∧
      c = .barrier (joinedState s bs) [nodeTask .assemble] (executed ++ branchTasks bs) (n + 1) := by
  cases h with
  | @mk ws s' ts hlimit hbarrier hne hperm hexec hmerge hnext =>
    obtain ⟨bs, hjoined, htasks, hupdates⟩ := exists_joined hperm hexec
    have hstate : joinedState s bs = s' := by
      rw [hupdates] at hmerge
      exact Option.some.inj ((applyWrites_branches s _).symm.trans hmerge)
    have hran : ws.map (·.1.node) = bs.map fun _ => Node.research := by
      have := congrArg (List.map Task.node) htasks
      simpa [branchTasks, branchTask, Function.comp_def] using this
    have hts : ts = [nodeTask .assemble] := by
      obtain ⟨x, bs', rfl⟩ : ∃ x bs', bs = x :: bs' := by
        refine List.exists_cons_of_ne_nil ?_
        rintro rfl
        exact hne (by simpa using hran)
      rw [hran, next_of_not_mem_decompose w s' (by simp), targets_eq] at hnext
      simpa using (Except.ok.inj hnext).symm
    exact ⟨bs, hjoined, by rw [hstate, hts, ← htasks]; rfl⟩

/-- A superstep takes a run to its next phase. -/
theorem Phase.superstep {w : World} {s : ResearchState} {qs : List Str}
    {executed : List (Task Node Payload)} {n limit : Nat} {c c' : RunConfig}
    (h : Phase w s qs executed n c)
    (hstep : Superstep (buildGraph w) ResearchState.schema limit c c') :
    Phase w s qs executed n c' := by
  cases h with
  | fannedOut =>
    obtain ⟨bs, hjoined, rfl⟩ := exists_joined_of_superstep hstep
    exact .joined hjoined
  | joined hjoined =>
    obtain ⟨u, s', ts, hexec, hmerge, hnext, rfl⟩ := hstep.of_task
    rw [applyWrites_singleton, Option.some.injEq] at hmerge
    rw [next_of_not_mem_decompose w s' (by simp [nodeTask]), targets_eq] at hnext
    cases hmerge
    cases hnext
    exact .assembled hjoined hexec
  | assembled hjoined hassemble =>
    obtain ⟨u, s', ts, hexec, hmerge, hnext, rfl⟩ := hstep.of_task
    rw [applyWrites_singleton, Option.some.injEq] at hmerge
    rw [next_of_not_mem_decompose w s' (by simp [nodeTask]), targets_eq] at hnext
    cases hexec
    cases hmerge
    cases hnext
    have hexecuted : ∀ xs : List (Task Node Payload), xs ++ [nodeTask .assemble] ++
        [nodeTask .reporter] = xs ++ [nodeTask .assemble, nodeTask .reporter] := by simp
    rw [hexecuted]
    exact .reported hjoined hassemble
  | reported _ _ => exact absurd rfl hstep.pending_ne_nil

/-- A run is over when the reporter has run. -/
theorem Phase.of_done {w : World} {s : ResearchState} {qs : List Str}
    {executed : List (Task Node Payload)} {n : Nat} {c : RunConfig}
    (h : Phase w s qs executed n c) (hqs : qs ≠ []) (hdone : c.Done) :
    ∃ bs u, Joined w qs bs ∧
      (assembleNode w.settings w.assembleCall (joinedState s bs)).outcome = .ok u ∧
      c = .barrier (((joinedState s bs).apply u).apply (reporterNode ((joinedState s bs).apply u)))
        [] (executed ++ branchTasks bs ++ [nodeTask .assemble, nodeTask .reporter]) (n + 3) := by
  cases h with
  | fannedOut =>
    have hpending : (payloads w.settings qs).map branchTask = [] := hdone.1
    exact absurd (List.map_eq_nil_iff.mp hpending) (payloads_ne_nil hqs)
  | joined hjoined => exact absurd hdone.1 (List.cons_ne_nil _ _)
  | assembled hjoined hassemble => exact absurd hdone.1 (List.cons_ne_nil _ _)
  | reported hjoined hassemble => exact ⟨_, _, hjoined, hassemble, rfl⟩

/-- The tasks of a superstep that have finished have not written one plain
    channel twice. -/
theorem Phase.nodup_plainWrites {w : World} {s : ResearchState} {qs : List Str}
    {executed : List (Task Node Payload)} {n : Nat} {c : RunConfig}
    (h : Phase w s qs executed n c) {ws : List (Task Node Payload × Update)}
    {rest : List (Task Node Payload)} (hperm : (ws.map (·.1) ++ rest).Perm c.pending)
    (hexec : ∀ x ∈ ws, (buildGraph w).exec x.1.node c.state x.1.arg = .ok x.2) :
    (ResearchState.schema.plainWrites (ws.map (·.2))).Nodup := by
  have hshort (hlength : c.pending.length ≤ 1) : (ws.map (·.2)).length ≤ 1 := by
    have := hperm.length_eq
    simp only [List.length_append, List.length_map] at this ⊢
    omega
  cases h with
  | fannedOut =>
    rw [plainWrites_eq_nil fun u hu => ?_]
    · exact List.nodup_nil
    obtain ⟨x, hx, rfl⟩ := List.mem_map.mp hu
    have hpending := hperm.mem_iff.mp (List.mem_append_left rest (List.mem_map_of_mem hx))
    obtain ⟨p, -, hp⟩ := List.mem_map.mp hpending
    have hrun := hexec x hx
    rw [← hp] at hrun
    obtain ⟨-, b, -, hb⟩ := researchNode_eq_ok_iff.mp hrun
    rw [hb]
    exact fun k => b.isReducer_of_mem_keys
  | joined _ => exact nodup_plainWrites_of_length_le_one (hshort le_rfl)
  | assembled _ _ => exact nodup_plainWrites_of_length_le_one (hshort le_rfl)
  | reported _ _ => exact nodup_plainWrites_of_length_le_one (hshort (Nat.zero_le _))

/-- Where a whole run is when a superstep begins. -/
inductive RunPhase (w : World) (s : ResearchState) : RunConfig → Prop where
  | start : RunPhase w s (.barrier s [nodeTask .decompose] [] 0)
  | decomposed {u : Update} {qs : List Str} {c : RunConfig}
      (hdecompose : (decomposeNode w.settings w.decomposeCall s).outcome = .ok u)
      (hqs : u.subQuestions = some qs)
      (hphase : Phase w (s.apply u) qs [nodeTask .decompose] 1 c) : RunPhase w s c

theorem subQuestions_of_decomposeNode {w : World} {s : ResearchState} {u : Update}
    (h : (decomposeNode w.settings w.decomposeCall s).outcome = .ok u) :
    ∃ decomposed : DecomposedQuestion, u.subQuestions = some decomposed.subQuestions := by
  obtain ⟨-, -, -, x, -, rfl⟩ := decomposeNode_eq_ok_iff.mp h
  exact ⟨x.1, rfl⟩

theorem RunPhase.superstep {w : World} {s : ResearchState} {limit : Nat} {c c' : RunConfig}
    (h : RunPhase w s c) (hstep : Superstep (buildGraph w) ResearchState.schema limit c c') :
    RunPhase w s c' := by
  cases h with
  | start =>
    obtain ⟨u, s', ts, hexec, hmerge, hnext, rfl⟩ := hstep.of_task
    rw [applyWrites_singleton, Option.some.injEq] at hmerge
    obtain ⟨decomposed, hqs⟩ := subQuestions_of_decomposeNode hexec
    have hstate : s'.subQuestions = some decomposed.subQuestions := by
      rw [← hmerge, ResearchState.apply, hqs]
      rfl
    have hts : ts = (payloads w.settings decomposed.subQuestions).map branchTask := by
      have hsends := (next_decompose w s').symm.trans hnext
      rw [fanOutResearch_eq, hstate] at hsends
      simp only [Except.map, List.map_map] at hsends
      exact (Except.ok.inj hsends).symm
    rw [hts, ← hmerge]
    exact .decomposed hexec hqs .fannedOut
  | decomposed hdecompose hqs hphase => exact .decomposed hdecompose hqs (hphase.superstep hstep)

/-- Every point of a run lies within a superstep that began in some phase. -/
theorem exists_runPhase {w : World} {s : ResearchState} {limit : Nat} {c : RunConfig}
    (h : Reaches (buildGraph w) ResearchState.schema limit (init (buildGraph w) s) c) :
    ∃ b, RunPhase w s b ∧ Within (buildGraph w) limit b c :=
  h.within_of_invariant (fun hb hstep => RunPhase.superstep hb hstep) rfl .start

/-- A completed run, node by node. -/
theorem completed_of_done {w : World} {s : ResearchState} {limit : Nat} {c : RunConfig}
    (h : Reaches (buildGraph w) ResearchState.schema limit (init (buildGraph w) s) c)
    (hdone : c.Done) :
    ∃ ud qs bs ua,
      (decomposeNode w.settings w.decomposeCall s).outcome = .ok ud ∧ ud.subQuestions = some qs ∧
      Joined w qs bs ∧
      (assembleNode w.settings w.assembleCall (joinedState (s.apply ud) bs)).outcome = .ok ua ∧
      c = .barrier (((joinedState (s.apply ud) bs).apply ua).apply
          (reporterNode ((joinedState (s.apply ud) bs).apply ua))) []
        ([nodeTask .decompose] ++ branchTasks bs ++ [nodeTask .assemble, nodeTask .reporter]) 4 := by
  have hphase : RunPhase w s c :=
    h.invariant_of_done (fun hb hstep => hb.superstep hstep) rfl .start hdone
  cases hphase with
  | start => exact absurd hdone.1 (List.cons_ne_nil _ _)
  | @decomposed ud qs _ hdecompose hqs hphase =>
    have hne : qs ≠ [] := by
      obtain ⟨decomposed, hsub⟩ := subQuestions_of_decomposeNode hdecompose
      rw [hqs, Option.some.injEq] at hsub
      rw [hsub]
      exact List.ne_nil_of_length_pos (by have := decomposed.length_ge; omega)
    obtain ⟨bs, ua, hjoined, hassemble, hc⟩ := hphase.of_done hne hdone
    exact ⟨ud, qs, bs, ua, hdecompose, hqs, hjoined, hassemble, hc⟩

end ResearchSynthesis
