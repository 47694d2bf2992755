-- SUMMARY: The research graph without its concurrency, and that its runs come to exactly what this sequential pipeline comes to.
import ResearchSynthesis.Graph.Completion
import ResearchSynthesis.Main.Cli
import ResearchSynthesis.StateGraph.Interpreter

/-!
# The sequential pipeline

`World.pipeline` is the program as one would write it without a graph: decompose,
research the sub-questions one after another, assemble, report. Only the order
of the branches is left open. The graph does nothing else, whether it ends or
raises, however its branches are interleaved.
-/

namespace ResearchSynthesis
open Python StateGraph

variable [UnicodeData]

/-- The research pipeline, one branch after another in the given order. -/
def World.pipeline (w : World) (question : Str) (order : Order Payload) :
    Except Exn ResearchState := do
  let s : ResearchState := { question := some question }
  let decomposition ← (decomposeNode w.settings w.decomposeCall s).outcome
  let s := s.apply decomposition
  let branches := order.arrange (payloads w.settings (s.subQuestions.getD []))
  let updates ← branches.mapM fun p => (researchNode w.settings (w.branch p.index) p).outcome
  let s := updates.foldl ResearchState.apply s
  let framing ← (assembleNode w.settings w.assembleCall s).outcome
  let s := s.apply framing
  return s.apply (reporterNode s)

/-! ## Supersteps of the graph -/

/-- The superstep of a node that runs alone. -/
theorem superstep_nodeTask (w : World) (n : Node) (s : ResearchState) :
    superstep (buildGraph w) ResearchState.schema s [nodeTask n] =
      match w.exec n s none with
      | .error e => .error (.raised e)
      | .ok u =>
        match (buildGraph w).next [n] (s.apply u) with
        | .error e => .error (.raised e)
        | .ok ts => .ok (s.apply u, ts) := by
  have hexec : (buildGraph w).exec (nodeTask n).node s (nodeTask n).arg = w.exec n s none := rfl
  have hnode : (nodeTask n).node = n := rfl
  rw [superstep_singleton, hexec]
  cases w.exec n s none with
  | error e => rfl
  | ok u =>
    simp only [applyWrites_singleton, hnode]
    cases (buildGraph w).next [n] (s.apply u) <;> rfl

/-- The fan-out follows the decomposition. -/
theorem superstep_decompose {w : World} {s : ResearchState} {u : Update}
    (h : (decomposeNode w.settings w.decomposeCall s).outcome = .ok u) :
    superstep (buildGraph w) ResearchState.schema s [nodeTask .decompose] =
      .ok (s.apply u, (payloads w.settings ((s.apply u).subQuestions.getD [])).map branchTask) := by
  obtain ⟨decomposed, hqs⟩ := subQuestions_of_decomposeNode h
  have hstate : (s.apply u).subQuestions = some decomposed.subQuestions := by
    rw [ResearchState.apply, hqs]
    rfl
  have hexec : w.exec .decompose s none = .ok u := h
  simp only [superstep_nodeTask, hexec, next_decompose, fanOutResearch_eq, hstate, Except.map,
    List.map_map]
  rfl

/-- The superstep of the branches, in any order of them. -/
theorem superstep_branches (w : World) (s : ResearchState) {ps : List Payload} (hps : ps ≠ []) :
    superstep (buildGraph w) ResearchState.schema s (ps.map branchTask) =
      match ps.mapM fun p => (researchNode w.settings (w.branch p.index) p).outcome with
      | .error e => .error (.raised e)
      | .ok us => .ok (us.foldl ResearchState.apply s, [nodeTask .assemble]) := by
  have hexec : (ps.map branchTask).mapM (fun t => (buildGraph w).exec t.node s t.arg) =
      ps.mapM fun p => (researchNode w.settings (w.branch p.index) p).outcome := by
    rw [List.mapM_map]
    rfl
  rw [superstep, hexec]
  cases hrun : ps.mapM fun p => (researchNode w.settings (w.branch p.index) p).outcome with
  | error e => rfl
  | ok us =>
    obtain ⟨ws, rfl, rfl, hws⟩ := mapM_eq_ok_iff.mp hrun
    have hplain : ResearchState.schema.plainWrites (ws.map (·.2)) = [] := by
      refine plainWrites_eq_nil fun u hu => ?_
      obtain ⟨x, hx, rfl⟩ := List.mem_map.mp hu
      obtain ⟨-, b, -, hb⟩ := researchNode_eq_ok_iff.mp (hws x hx)
      rw [hb]
      exact fun k => b.isReducer_of_mem_keys
    have hmerge : ResearchState.schema.applyWrites s (ws.map (·.2)) =
        some ((ws.map (·.2)).foldl ResearchState.apply s) :=
      (Schema.applyWrites_eq_some_iff _).mpr ⟨hplain ▸ List.nodup_nil, rfl⟩
    have hnodes : ((ws.map (·.1)).map branchTask).map (·.node) = ws.map fun _ => Node.research := by
      simp [branchTask, Function.comp_def]
    have hnext : (buildGraph w).next (ws.map fun _ => Node.research)
        ((ws.map (·.2)).foldl ResearchState.apply s) = .ok [nodeTask .assemble] := by
      obtain ⟨x, ws, rfl⟩ := List.exists_cons_of_ne_nil (by simpa using hps : ws ≠ [])
      rw [next_of_not_mem_decompose w _ (by simp), targets_eq]
      simp
    simp only [hmerge, hnodes, hnext]

theorem superstep_assemble (w : World) (s : ResearchState) :
    superstep (buildGraph w) ResearchState.schema s [nodeTask .assemble] =
      match (assembleNode w.settings w.assembleCall s).outcome with
      | .error e => .error (.raised e)
      | .ok u => .ok (s.apply u, [nodeTask .reporter]) := by
  have hexec : w.exec .assemble s none = (assembleNode w.settings w.assembleCall s).outcome := rfl
  rw [superstep_nodeTask, hexec]
  cases (assembleNode w.settings w.assembleCall s).outcome with
  | error e => rfl
  | ok u =>
    dsimp only
    rw [next_of_not_mem_decompose w _ (by simp), targets_eq]
    rfl

theorem superstep_reporter (w : World) (s : ResearchState) :
    superstep (buildGraph w) ResearchState.schema s [nodeTask .reporter] =
      .ok (s.apply (reporterNode s), []) := by
  have hexec : w.exec .reporter s none = .ok (reporterNode s) := rfl
  rw [superstep_nodeTask, hexec]
  dsimp only
  rw [next_of_not_mem_decompose w _ (by simp), targets_eq]
  rfl

/-! ## The interpreter runs the pipeline -/

omit [UnicodeData] in
/-- The payload of a branch's task. -/
theorem arg_branchTask (p : Payload) : (branchTask p).arg = some p := rfl

omit [UnicodeData] in
theorem branchTask_injective : Function.Injective branchTask := fun p p' h => by
  simpa [branchTask] using h

theorem pipeline_of_decomposed {w : World} {question : Str} {u : Update} {qs : List Str}
    (h : (decomposeNode w.settings w.decomposeCall { question := some question }).outcome = .ok u)
    (hqs : u.subQuestions = some qs) (order : Order Payload) :
    w.pipeline question order = do
      let updates ← (order.arrange (payloads w.settings qs)).mapM fun p =>
        (researchNode w.settings (w.branch p.index) p).outcome
      let s := updates.foldl ResearchState.apply
        (({ question := some question } : ResearchState).apply u)
      let framing ← (assembleNode w.settings w.assembleCall s).outcome
      return (s.apply framing).apply (reporterNode (s.apply framing)) := by
  have hstate : (({ question := some question } : ResearchState).apply u).subQuestions = some qs := by
    rw [ResearchState.apply, hqs]
    rfl
  rw [World.pipeline]
  simp only [h, bind, Except.bind, hstate, Option.getD_some]

/-- The interpreter does what the pipeline does in the order of the second
    superstep; the others have one task each, and the last order is to end on. -/
theorem interpret_eq_pipeline (w : World) (question : Str)
    (o₀ o₁ o₂ o₃ o₄ : Order (Task Node Payload)) (os : List (Order (Task Node Payload))) :
    interpret (buildGraph w) ResearchState.schema (o₀ :: o₁ :: o₂ :: o₃ :: o₄ :: os)
        { question := some question } [nodeTask .decompose] =
      (w.pipeline question (o₁.comap arg_branchTask)).mapError .raised := by
  rw [interpret_cons (by simp), Order.arrange_singleton]
  cases hdecompose : (decomposeNode w.settings w.decomposeCall
      { question := some question }).outcome with
  | error e =>
    have hexec : w.exec .decompose { question := some question } none = .error e := hdecompose
    rw [superstep_nodeTask, hexec]
    simp only [World.pipeline, hdecompose]
    rfl
  | ok u =>
    obtain ⟨decomposed, hqs⟩ := subQuestions_of_decomposeNode hdecompose
    have hne : decomposed.subQuestions ≠ [] := by
      intro hnil
      have := decomposed.length_ge
      rw [hnil] at this
      cases this
    have hstate : (({ question := some question } : ResearchState).apply u).subQuestions =
        some decomposed.subQuestions := by
      rw [ResearchState.apply, hqs]
      rfl
    have hps : payloads w.settings decomposed.subQuestions ≠ [] := payloads_ne_nil hne
    have harrange : (o₁.comap arg_branchTask).arrange
        (payloads w.settings decomposed.subQuestions) ≠ [] := fun hnil => hps (List.nil_perm.mp (hnil ▸ Order.perm _ _))
    rw [pipeline_of_decomposed hdecompose hqs, superstep_decompose hdecompose, hstate]
    simp only [Option.getD_some]
    rw [interpret_cons (by simpa using hps), ← Order.map_arrange_comap o₁ arg_branchTask,
      superstep_branches w _ harrange]
    cases ((o₁.comap arg_branchTask).arrange (payloads w.settings decomposed.subQuestions)).mapM
      fun p => (researchNode w.settings (w.branch p.index) p).outcome with
    | error e => rfl
    | ok us =>
      simp only [bind, Except.bind]
      rw [interpret_cons (by simp), Order.arrange_singleton, superstep_assemble]
      cases (assembleNode w.settings w.assembleCall (us.foldl ResearchState.apply
          (({ question := some question } : ResearchState).apply u))).outcome with
      | error e => rfl
      | ok ua =>
        simp only
        rw [interpret_cons (by simp), Order.arrange_singleton, superstep_reporter]
        simp only [interpret_nil]
        rfl

/-! ## The pipeline, stage by stage -/

section
variable {w : World} {question : Str} {u : Update} {qs : List Str} {order : Order Payload}

theorem pipeline_of_decompose_error {e : Exn}
    (h : (decomposeNode w.settings w.decomposeCall { question := some question }).outcome = .error e) :
    w.pipeline question order = .error e := by
  rw [World.pipeline, h]
  rfl

theorem pipeline_of_branch_error {e : Exn}
    (h : (decomposeNode w.settings w.decomposeCall { question := some question }).outcome = .ok u)
    (hqs : u.subQuestions = some qs)
    (hbranches : ((order.arrange (payloads w.settings qs)).mapM fun p =>
      (researchNode w.settings (w.branch p.index) p).outcome) = .error e) :
    w.pipeline question order = .error e := by
  rw [pipeline_of_decomposed h hqs, hbranches]
  rfl

/-- Branches that all return are joined in the order in which they ran. -/
theorem mapM_researchNode_iff {ps : List Payload} {us : List Update} :
    (ps.mapM fun p => (researchNode w.settings (w.branch p.index) p).outcome) = .ok us ↔
      ∃ bs : List (Payload × BranchUpdate),
        bs.map (·.1) = ps ∧ us = bs.map (·.2.update) ∧
        ∀ x ∈ bs, (∃ config, (w.branch x.1.index).clients w.settings = .ok config) ∧
          Researched w.settings (w.branch x.1.index) x.1 x.2 := by
  rw [mapM_eq_ok_iff]
  constructor
  · rintro ⟨ws, rfl, rfl, hws⟩
    induction ws with
    | nil => exact ⟨[], rfl, rfl, by simp⟩
    | cons x ws ih =>
      obtain ⟨hx, hws⟩ := List.forall_mem_cons.mp hws
      obtain ⟨hclients, b, hb, hu⟩ := researchNode_eq_ok_iff.mp hx
      obtain ⟨bs, hps, hus, hbs⟩ := ih hws
      exact ⟨(x.1, b) :: bs, by rw [List.map_cons, List.map_cons, hps],
        by rw [List.map_cons, List.map_cons, hus, hu],
        List.forall_mem_cons.mpr ⟨⟨hclients, hb⟩, hbs⟩⟩
  · rintro ⟨bs, rfl, rfl, hbs⟩
    refine ⟨bs.map fun x => (x.1, x.2.update), by simp, by simp, fun x hx => ?_⟩
    obtain ⟨y, hy, rfl⟩ := List.mem_map.mp hx
    exact researchNode_eq_ok_iff.mpr ⟨(hbs y hy).1, y.2, (hbs y hy).2, rfl⟩

/-- Once the branches have been joined, the assembly decides. -/
theorem pipeline_of_branches {bs : List (Payload × BranchUpdate)}
    (h : (decomposeNode w.settings w.decomposeCall { question := some question }).outcome = .ok u)
    (hqs : u.subQuestions = some qs)
    (hbranches : ((order.arrange (payloads w.settings qs)).mapM fun p =>
      (researchNode w.settings (w.branch p.index) p).outcome) = .ok (bs.map (·.2.update))) :
    w.pipeline question order = do
      let s := joinedState (({ question := some question } : ResearchState).apply u) bs
      let framing ← (assembleNode w.settings w.assembleCall s).outcome
      return (s.apply framing).apply (reporterNode (s.apply framing)) := by
  rw [pipeline_of_decomposed h hqs, hbranches, joinedState, ResearchState.appendBranches,
    List.map_map]
  rfl

omit [UnicodeData] in
theorem question_joinedState {s : ResearchState} {bs : List (Payload × BranchUpdate)} :
    (joinedState s bs).question = s.question := by
  simp [joinedState, appendBranches_eq]

/-- The question is there until the branches have joined. -/
theorem question_joined_of_decomposed {s : ResearchState}
    (h : (decomposeNode w.settings w.decomposeCall s).outcome = .ok u)
    (bs : List (Payload × BranchUpdate)) :
    (joinedState (s.apply u) bs).question = s.question := by
  obtain ⟨-, -, -, x, -, rfl⟩ := decomposeNode_eq_ok_iff.mp h
  rw [question_joinedState]
  simp [ResearchState.apply]

end

/-! ## The graph and the pipeline -/

/-- The pipeline under the order that the second superstep of a run took. -/
theorem exists_pipeline_of_comesTo {w : World} {question : Str} {limit : Nat} (hlimit : 4 < limit)
    {r : Except (Failure Exn) ResearchState}
    (h : ComesTo (buildGraph w) ResearchState.schema limit
      (init (buildGraph w) { question := some question }) r) :
    ∃ order, (w.pipeline question order).mapError .raised = r := by
  obtain ⟨os, hlength, hos⟩ := h.exists_interpret rfl
  have hlong : 4 < os.length := hlength ▸ hlimit
  rcases os with _ | ⟨o₀, _ | ⟨o₁, _ | ⟨o₂, _ | ⟨o₃, _ | ⟨o₄, os⟩⟩⟩⟩⟩
  · cases hlong
  · simp at hlong
  · simp at hlong
  · simp at hlong
  · simp at hlong
  · exact ⟨_, (interpret_eq_pipeline w question o₀ o₁ o₂ o₃ o₄ os).symm.trans hos⟩

/-- A run whose branches finish in the order of the pipeline. -/
theorem comesTo_pipeline (w : World) (question : Str) {limit : Nat} (hlimit : 4 < limit)
    (order : Order Payload) :
    ComesTo (buildGraph w) ResearchState.schema limit
      (init (buildGraph w) { question := some question })
      ((w.pipeline question order).mapError .raised) := by
  let schedule : List (Order (Task Node Payload)) :=
    .keep :: order.map branchTask :: .keep :: .keep :: .keep :: List.replicate (limit - 5) .keep
  have hlength : schedule.length =
      limit - (init (buildGraph w) { question := some question }).supersteps := by
    simp [schedule, init, Config.barrier]
    omega
  have hschedule := comesTo_interpret (G := buildGraph w) (S := ResearchState.schema) rfl hlength
  have hpipeline := interpret_eq_pipeline w question .keep (order.map branchTask) .keep .keep .keep
    (List.replicate (limit - 5) .keep)
  rw [Order.comap_map order branchTask_injective] at hpipeline
  rw [← hpipeline]
  exact hschedule

theorem exists_pipeline_of_ainvokes {w : World} {question : Str} {limit : Nat} (hlimit : 4 < limit)
    {r : Except Exn ResearchState} (h : w.Ainvokes question limit r) :
    ∃ order, w.pipeline question order = r := by
  obtain ⟨hreach, hdone, hbelow⟩ | ⟨hreach, hfails, he⟩ := h
  · obtain ⟨order, horder⟩ := exists_pipeline_of_comesTo hlimit (.done hreach hdone hbelow)
    refine ⟨order, ?_⟩
    cases hp : w.pipeline question order with
    | ok s =>
      rw [hp] at horder
      exact congrArg Except.ok (Except.ok.inj horder)
    | error e => simp [hp, Except.mapError] at horder
  · obtain ⟨order, horder⟩ := exists_pipeline_of_comesTo hlimit (.fails hreach hfails)
    refine ⟨order, ?_⟩
    cases hp : w.pipeline question order with
    | ok s => simp [hp, Except.mapError] at horder
    | error e =>
      rw [hp] at horder
      rw [he e (Except.error.inj horder).symm]

theorem ainvokes_pipeline (w : World) (question : Str) {limit : Nat} (hlimit : 4 < limit)
    (order : Order Payload) : w.Ainvokes question limit (w.pipeline question order) := by
  have hcomes := comesTo_pipeline w question hlimit order
  cases hp : w.pipeline question order with
  | ok s =>
    rw [hp] at hcomes
    change ComesTo _ _ _ _ (.ok s) at hcomes
    obtain ⟨hreach, hdone, hbelow⟩ := hcomes
    exact .returns hreach hdone hbelow
  | error e =>
    rw [hp] at hcomes
    change ComesTo _ _ _ _ (.error (.raised e)) at hcomes
    obtain ⟨⟩ | ⟨hreach, hfails⟩ := hcomes
    exact .raises hreach hfails fun _ h => Failure.raised.inj h

end ResearchSynthesis
