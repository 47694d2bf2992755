-- SUMMARY: Runs in which the branches are merged in the order of their `Send`s, and what both orders of merging come to.
import ResearchSynthesis.Graph.Pipeline
import ResearchSynthesis.StateGraph.Ordered

/-!
# Merging in the order of the `Send`s

LangGraph sorts the updates of a superstep before it merges them, so the branches
are merged in the order of their `Send`s whenever they finish.
`ainvokes_iff_pipeline` says what the runs come to if they are merged as they
finish, and what they come to in that order.
-/

namespace ResearchSynthesis
open Python StateGraph

variable [UnicodeData]

/-- What `ainvoke` can come to where the updates of the branches are merged in the
    order of their `Send`s, in whatever order they finish. -/
inductive World.AinvokesInOrder (w : World) (question : Str) (limit : Nat) :
    Except Exn ResearchState → Prop where
  | returns {c : RunConfig}
      (hreach : OrderedReaches (buildGraph w) ResearchState.schema limit
        (init (buildGraph w) { question := some question }) c)
      (hdone : c.Done) (hlimit : c.supersteps < limit) :
      AinvokesInOrder w question limit (.ok c.state)
  | raises {c : RunConfig} {failure : Failure Exn} {e : Exn}
      (hreach : OrderedReaches (buildGraph w) ResearchState.schema limit
        (init (buildGraph w) { question := some question }) c)
      (hfails : Fails (buildGraph w) ResearchState.schema limit c failure)
      (he : ∀ raised, failure = .raised raised → e = raised) :
      AinvokesInOrder w question limit (.error e)

theorem World.AinvokesInOrder.ainvokes {w : World} {question : Str} {limit : Nat}
    {r : Except Exn ResearchState} (h : w.AinvokesInOrder question limit r) :
    w.Ainvokes question limit r := by
  cases h with
  | returns hreach hdone hlimit => exact .returns hreach.reaches hdone hlimit
  | raises hreach hfails he => exact .raises hreach.reaches hfails he

/-- The interpreter that leaves every list as it is runs the branches in the order
    of their `Send`s. -/
theorem interpret_keep (w : World) (question : Str) {limit : Nat} (hlimit : 4 < limit) :
    let b := init (buildGraph w) { question := some question }
    interpret (buildGraph w) ResearchState.schema (List.replicate (limit - b.supersteps) .keep)
      b.state b.pending = (w.pipeline question .keep).mapError .raised := by
  obtain ⟨n, rfl⟩ : ∃ n, limit = n + 5 := ⟨limit - 5, by omega⟩
  have hcomap : (.keep : Order (Task Node Payload)).comap arg_branchTask = .keep := by
    ext1 ps
    exact List.filterMap_map.trans List.filterMap_some
  rw [← hcomap]
  exact interpret_eq_pipeline w question .keep .keep .keep .keep .keep (List.replicate n .keep)

theorem ainvokesInOrder_pipeline (w : World) (question : Str) {limit : Nat} (hlimit : 4 < limit) :
    w.AinvokesInOrder question limit (w.pipeline question .keep) := by
  have hcomes := @comesToInOrder_interpret _ _ _ _ _ _ _ _ (buildGraph w) ResearchState.schema limit
    (init (buildGraph w) { question := some question }) rfl
  rw [interpret_keep w question hlimit] at hcomes
  cases hp : w.pipeline question .keep with
  | ok s =>
    rw [hp] at hcomes
    change ComesToInOrder _ _ _ _ (.ok s) at hcomes
    obtain ⟨hreach, hdone, hbelow⟩ := hcomes
    exact .returns hreach hdone hbelow
  | error e =>
    rw [hp] at hcomes
    change ComesToInOrder _ _ _ _ (.error (.raised e)) at hcomes
    obtain ⟨⟩ | ⟨hreach, hfails⟩ := hcomes
    exact .raises hreach hfails fun _ h => Failure.raised.inj h

theorem pipeline_of_ainvokesInOrder {w : World} {question : Str} {limit : Nat} (hlimit : 4 < limit)
    {s : ResearchState} (h : w.AinvokesInOrder question limit (.ok s)) :
    w.pipeline question .keep = .ok s := by
  cases h with
  | @returns c hreach hdone hbelow =>
    have hrun := (comesToInOrder_ok_iff rfl).mp (.done hreach hdone hbelow)
    rw [interpret_keep w question hlimit] at hrun
    cases hp : w.pipeline question .keep with
    | ok s =>
      rw [hp] at hrun
      exact congrArg Except.ok (Except.ok.inj hrun)
    | error e => simp [hp, Except.mapError] at hrun

/-! ## Errors -/

/-- Whatever the branches have added, the assembly raises the same. -/
theorem assembleNode_error_congr {w : World} {s s' : ResearchState} {e : Exn}
    (hquestion : s.question = s'.question)
    (h : (assembleNode w.settings w.assembleCall s).outcome = .error e) :
    (assembleNode w.settings w.assembleCall s').outcome = .error e := by
  have hrequire : s.requireQuestion = s'.requireQuestion := by
    unfold ResearchState.requireQuestion
    rw [hquestion]
  simp only [assembleNode, Calling.outcome_bind, Calling.outcome_lift, hrequire,
    bind_eq_error_iff] at h ⊢
  rcases h with hmissing | ⟨question, hpresent, hsetup | ⟨config, hsetup, hrun | ⟨x, -, h⟩⟩⟩
  · exact .inl hmissing
  · exact .inr ⟨question, hpresent, .inl hsetup⟩
  · refine .inr ⟨question, hpresent, .inr ⟨config, hsetup, .inl ?_⟩⟩
    rw [outcome_runAssemble] at hrun ⊢
    cases hlog : logLlmCall (lit "supervisor_assemble") w.settings.supervisorModel
        (assembled (w.assembleCall.invoke (buildAssembleMessages question s.summaries))).2.1
        (assembled (w.assembleCall.invoke (buildAssembleMessages question s.summaries))).2.2
        w.assembleCall.latencyMs with
    | error e' =>
      simp only [hlog] at hrun
      cases hrun
      simp only [logLlmCall_error_congr hlog]
      rfl
    | ok entry => simp [hlog, Except.map] at hrun
  · cases h

section
variable {w : World} {question : Str} {limit : Nat} {u : Update} {qs : List Str}

/-- A branch that raises can be the first to finish. -/
theorem ainvokesInOrder_of_branch (hlimit : 4 < limit)
    (hdecompose : (decomposeNode w.settings w.decomposeCall
      { question := some question }).outcome = .ok u)
    (hqs : u.subQuestions = some qs) {p : Payload} (hp : p ∈ payloads w.settings qs) {e : Exn}
    (hraised : (researchNode w.settings (w.branch p.index) p).outcome = .error e) :
    w.AinvokesInOrder question limit (.error e) := by
  have hstart : 0 < limit := Nat.zero_lt_of_lt hlimit
  obtain ⟨executed, hsuper⟩ := @exists_orderedSuperstep _ _ _ _ _ _ _ _ (buildGraph w)
    ResearchState.schema limit (init (buildGraph w) { question := some question }) rfl hstart
    (List.cons_ne_nil _ _) _ _ (superstep_decompose hdecompose)
  have hstate : (({ question := some question } : ResearchState).apply u).subQuestions = some qs := by
    rw [ResearchState.apply, hqs]
    rfl
  have hmem : branchTask p ∈ (payloads w.settings ((({ question := some question } :
      ResearchState).apply u).subQuestions.getD [])).map branchTask := by
    rw [hstate]
    exact List.mem_map_of_mem hp
  exact .raises (.head hsuper (.refl _)) (.node (Nat.lt_of_succ_lt (Nat.lt_of_succ_lt
    (Nat.lt_of_succ_lt hlimit))) hmem hraised) fun _ h => Failure.raised.inj h

/-- Where the assembly raises after the branches in one order, it does so in every
    order. -/
theorem pipeline_error_of_assemble {order order' : Order Payload}
    (hdecompose : (decomposeNode w.settings w.decomposeCall
      { question := some question }).outcome = .ok u)
    (hqs : u.subQuestions = some qs) {us : List Update}
    (hbranches : ((order.arrange (payloads w.settings qs)).mapM fun p =>
      (researchNode w.settings (w.branch p.index) p).outcome) = .ok us) {e : Exn}
    (h : w.pipeline question order = .error e) : w.pipeline question order' = .error e := by
  obtain ⟨bs, -, rfl, -⟩ := mapM_researchNode_iff.mp hbranches
  have hreturned : ∀ p ∈ order'.arrange (payloads w.settings qs),
      ∃ u, (researchNode w.settings (w.branch p.index) p).outcome = .ok u := by
    obtain ⟨ws, hps, -, hws⟩ := mapM_eq_ok_iff.mp hbranches
    intro p hp
    have hp := (order.perm _).mem_iff.mpr ((order'.perm _).mem_iff.mp hp)
    rw [← hps] at hp
    obtain ⟨x, hx, rfl⟩ := List.mem_map.mp hp
    exact ⟨x.2, hws x hx⟩
  obtain ⟨us', hbranches'⟩ := exists_mapM_ok hreturned
  obtain ⟨bs', -, rfl, -⟩ := mapM_researchNode_iff.mp hbranches'
  rw [pipeline_of_branches hdecompose hqs hbranches, bind_eq_error_iff] at h
  rw [pipeline_of_branches hdecompose hqs hbranches', bind_eq_error_iff]
  have hraised := h.resolve_right (by simp [pure, Except.pure])
  exact .inl (assembleNode_error_congr (by rw [question_joinedState, question_joinedState]) hraised)

end

/-- An error of the pipeline, in whatever order of the branches, is one of the run. -/
theorem ainvokesInOrder_of_error {w : World} {question : Str} {limit : Nat} (hlimit : 4 < limit)
    {order : Order Payload} {e : Exn} (h : w.pipeline question order = .error e) :
    w.AinvokesInOrder question limit (.error e) := by
  have hkeep := ainvokesInOrder_pipeline w question hlimit
  cases hdecompose : (decomposeNode w.settings w.decomposeCall
      { question := some question }).outcome with
  | error e' =>
    have hsame : w.pipeline question .keep = .error e' := pipeline_of_decompose_error hdecompose
    rw [pipeline_of_decompose_error hdecompose, Except.error.injEq] at h
    rwa [hsame, h] at hkeep
  | ok u =>
    obtain ⟨decomposed, hqs⟩ := subQuestions_of_decomposeNode hdecompose
    cases hbranches : (order.arrange (payloads w.settings decomposed.subQuestions)).mapM fun p =>
        (researchNode w.settings (w.branch p.index) p).outcome with
    | error e' =>
      rw [pipeline_of_branch_error hdecompose hqs hbranches, Except.error.injEq] at h
      subst h
      obtain ⟨p, hp, hraised⟩ := mapM_error hbranches
      exact ainvokesInOrder_of_branch hlimit hdecompose hqs ((order.perm _).mem_iff.mp hp) hraised
    | ok us => rwa [pipeline_error_of_assemble hdecompose hqs hbranches h] at hkeep

/-! ## The graph and the pipeline -/

/-- With a limit of five or more, a run whose updates are merged as the branches
    finish comes to what the pipeline comes to in some order of them. If they are
    merged in the order of the `Send`s it ends in one state at most, the
    pipeline's in that order; it can still raise what the pipeline raises in any
    order, as any of the branches that raise can be the first. -/
theorem ainvokes_iff_pipeline (w : World) (question : Str) {limit : Nat} (hlimit : 4 < limit) :
    (∀ r, w.Ainvokes question limit r ↔ ∃ order, w.pipeline question order = r) ∧
    (∀ s, w.AinvokesInOrder question limit (.ok s) ↔ w.pipeline question .keep = .ok s) ∧
    ∀ e, w.AinvokesInOrder question limit (.error e) ↔
      ∃ order, w.pipeline question order = .error e := by
  refine ⟨fun r => ⟨exists_pipeline_of_ainvokes hlimit, ?_⟩, fun s => ⟨?_, fun h => ?_⟩, fun e =>
    ⟨fun h => exists_pipeline_of_ainvokes hlimit h.ainvokes, ?_⟩⟩
  · rintro ⟨order, rfl⟩
    exact ainvokes_pipeline w question hlimit order
  · exact pipeline_of_ainvokesInOrder hlimit
  · exact h ▸ ainvokesInOrder_pipeline w question hlimit
  · rintro ⟨order, horder⟩
    exact ainvokesInOrder_of_error hlimit horder

omit [UnicodeData] in
theorem ainvokes_iff_pipeline_sunnyWorld :
    (∀ order, @World.Ainvokes .basicLatin sunnyWorld (lit "question") recursionLimit
      (@World.pipeline .basicLatin sunnyWorld (lit "question") order)) ∧
    ∀ s, @World.AinvokesInOrder .basicLatin sunnyWorld (lit "question") recursionLimit (.ok s) ↔
      @World.pipeline .basicLatin sunnyWorld (lit "question") .keep = .ok s := by
  obtain ⟨hany, hordered, -⟩ :=
    @ainvokes_iff_pipeline .basicLatin sunnyWorld (lit "question") recursionLimit (by decide)
  exact ⟨fun order => (hany _).mpr ⟨order, rfl⟩, hordered⟩

end ResearchSynthesis
