-- SUMMARY: Every point of every run: which tasks have finished by then, in which order, what they have cost, and that the state has only grown.
import ResearchSynthesis.Graph.Run
import ResearchSynthesis.Graph.Tracing
import ResearchSynthesis.Agents.SearchContract

/-!
# The history of a run

Other than the end of a run, its points include those from which it fails. By any
of them the tasks that have finished are the first of decompose, the branches in
some order, assemble, reporter; and what they wrote is never taken back.
-/

namespace ResearchSynthesis
open Python StateGraph

/-! ## States that extend each other -/

/-- A value that is there stays as it is. -/
def Keeps {α : Type} (before after : Option α) : Prop := ∀ x, before = some x → after = some x

theorem Keeps.refl {α : Type} (x : Option α) : Keeps x x := fun _ h => h

theorem Keeps.orElse {α : Type} {x y : Option α} (h : x = none ∨ y = none) :
    Keeps y (x <|> y) := by
  intro z hz
  subst hz
  obtain rfl := h.resolve_right (by simp)
  rfl

/-- `s'` is `s` with more in it: lists have grown at their ends, and every other
    channel that was set is what it was. -/
structure ResearchState.Extends (s s' : ResearchState) : Prop where
  question : s'.question = s.question
  subQuestions : Keeps s.subQuestions s'.subQuestions
  searchResults : s.searchResults <+: s'.searchResults
  summaries : s.summaries <+: s'.summaries
  reportIntro : Keeps s.reportIntro s'.reportIntro
  reportConclusion : Keeps s.reportConclusion s'.reportConclusion
  finalReport : Keeps s.finalReport s'.finalReport
  costLog : s.costLog <+: s'.costLog
  error : s'.error = s.error

namespace ResearchState.Extends

theorem refl (s : ResearchState) : s.Extends s where
  question := rfl
  subQuestions := .refl _
  searchResults := List.prefix_rfl
  summaries := List.prefix_rfl
  reportIntro := .refl _
  reportConclusion := .refl _
  finalReport := .refl _
  costLog := List.prefix_rfl
  error := rfl

theorem trans {s s' s'' : ResearchState} (h : s.Extends s') (h' : s'.Extends s'') : s.Extends s'' where
  question := h'.question.trans h.question
  subQuestions x hx := h'.subQuestions x (h.subQuestions x hx)
  searchResults := h.searchResults.trans h'.searchResults
  summaries := h.summaries.trans h'.summaries
  reportIntro x hx := h'.reportIntro x (h.reportIntro x hx)
  reportConclusion x hx := h'.reportConclusion x (h.reportConclusion x hx)
  finalReport x hx := h'.finalReport x (h.finalReport x hx)
  costLog := h.costLog.trans h'.costLog
  error := h'.error.trans h.error

/-- Updates that set only what was not set extend the state. -/
theorem apply {s : ResearchState} {u : Update} (hquestion : u.question = none)
    (hsubQuestions : u.subQuestions = none ∨ s.subQuestions = none)
    (hintro : u.reportIntro = none ∨ s.reportIntro = none)
    (hconclusion : u.reportConclusion = none ∨ s.reportConclusion = none)
    (hreport : u.finalReport = none ∨ s.finalReport = none) (herror : u.error = none) :
    s.Extends (s.apply u) where
  question := by simp [ResearchState.apply, hquestion]
  subQuestions := .orElse hsubQuestions
  searchResults := List.prefix_append _ _
  summaries := List.prefix_append _ _
  reportIntro := .orElse hintro
  reportConclusion := .orElse hconclusion
  finalReport := .orElse hreport
  costLog := List.prefix_append _ _
  error := by simp [ResearchState.apply, herror]

theorem joinedState (s : ResearchState) (bs : List (Payload × BranchUpdate)) :
    s.Extends (joinedState s bs) := by
  rw [ResearchSynthesis.joinedState, appendBranches_eq]
  exact { refl s with
    searchResults := List.prefix_append _ _
    summaries := List.prefix_append _ _
    costLog := List.prefix_append _ _ }

end ResearchState.Extends

/-! ## The state only grows -/

variable [UnicodeData]

section
variable {w : World} {question : Str} {limit : Nat}

theorem extends_decomposed {u : Update}
    (h : (decomposeNode w.settings w.decomposeCall { question := some question }).outcome = .ok u) :
    ({ question := some question } : ResearchState).Extends
      (({ question := some question } : ResearchState).apply u) := by
  obtain ⟨-, -, -, x, -, rfl⟩ := decomposeNode_eq_ok_iff.mp h
  exact .apply rfl (.inr rfl) (.inl rfl) (.inl rfl) (.inl rfl) rfl

/-- No node before the assembly writes the framing or the report. -/
theorem unwritten_joined {u : Update} (bs : List (Payload × BranchUpdate))
    (h : (decomposeNode w.settings w.decomposeCall { question := some question }).outcome = .ok u) :
    let s := joinedState (({ question := some question } : ResearchState).apply u) bs
    s.reportIntro = none ∧ s.reportConclusion = none ∧ s.finalReport = none := by
  obtain ⟨-, -, -, x, -, rfl⟩ := decomposeNode_eq_ok_iff.mp h
  simp [joinedState, appendBranches_eq, ResearchState.apply]

theorem RunPhase.extends {b b' : RunConfig} (h : RunPhase w { question := some question } b)
    (hsuper : Superstep (buildGraph w) ResearchState.schema limit b b') :
    b.state.Extends b'.state := by
  cases h with
  | start =>
    obtain ⟨u, s', ts, hexec, hmerge, -, rfl⟩ := hsuper.of_task
    rw [applyWrites_singleton, Option.some.injEq] at hmerge
    cases hmerge
    exact extends_decomposed hexec
  | decomposed hdecompose hqs hphase =>
    cases hphase with
    | fannedOut =>
      obtain ⟨bs, -, rfl⟩ := exists_joined_of_superstep hsuper
      exact .joinedState _ _
    | @joined bs hjoined =>
      obtain ⟨u, s', ts, hexec, hmerge, -, rfl⟩ := hsuper.of_task
      rw [applyWrites_singleton, Option.some.injEq] at hmerge
      cases hmerge
      obtain ⟨hintro, hconclusion, -⟩ := unwritten_joined bs hdecompose
      obtain ⟨-, -, -, x, -, rfl⟩ := assembleNode_eq_ok_iff.mp hexec
      exact .apply rfl (.inl rfl) (.inr hintro) (.inr hconclusion) (.inl rfl) rfl
    | @assembled bs ua hjoined hassemble =>
      obtain ⟨u, s', ts, hexec, hmerge, -, rfl⟩ := hsuper.of_task
      rw [applyWrites_singleton, Option.some.injEq] at hmerge
      cases hexec
      cases hmerge
      obtain ⟨-, -, hreport⟩ := unwritten_joined bs hdecompose
      obtain ⟨-, -, -, x, -, rfl⟩ := assembleNode_eq_ok_iff.mp hassemble
      exact .apply rfl (.inl rfl) (.inl rfl) (.inl rfl) (.inr hreport) rfl
    | reported _ _ => exact absurd rfl hsuper.pending_ne_nil

/-- Whatever a run still does, what its state holds stays there: every point of a
    run has a state that the later points extend. -/
theorem state_appendOnly (w : World) (question : Str) (limit : Nat) {c c' : RunConfig}
    (hreach : Reaches (buildGraph w) ResearchState.schema limit
      (init (buildGraph w) { question := some question }) c)
    (hrun : Reaches (buildGraph w) ResearchState.schema limit c c') :
    c.state.Extends c'.state :=
  Reaches.rel_of_invariant ResearchState.Extends.refl ResearchState.Extends.trans
    (fun hb hsuper => ⟨RunPhase.superstep hb hsuper, RunPhase.extends hb hsuper⟩) rfl
    RunPhase.start hreach hrun

omit [UnicodeData] in
theorem state_appendOnly_sunnyWorld :
    ∃ c, Reaches (@buildGraph .basicLatin sunnyWorld) ResearchState.schema recursionLimit
        (init (@buildGraph .basicLatin sunnyWorld) { question := some (lit "question") }) c ∧
      c.Done ∧ ({ question := some (lit "question") } : ResearchState).Extends c.state := by
  obtain ⟨c, hreach, hdone⟩ := @exists_done_of_reaches .basicLatin sunnyWorld (lit "question")
    (@sound_sunnyWorld .basicLatin _) recursionLimit (by decide) _ .refl
  exact ⟨c, hreach, hdone,
    @state_appendOnly .basicLatin sunnyWorld (lit "question") recursionLimit _ _ .refl hreach⟩

end

/-! ## The tasks that have finished -/

omit [UnicodeData] in
/-- The tasks that have finished, in the order in which they did. -/
def history (c : RunConfig) : List (Task Node Payload) := c.executed ++ c.writes.map (·.1)

omit [UnicodeData] in
/-- The tasks of a run whose branches finish in the order `ps`. -/
def runTasks (ps : List Payload) : List (Task Node Payload) :=
  [nodeTask .decompose] ++ ps.map branchTask ++ [nodeTask .assemble, nodeTask .reporter]

omit [UnicodeData] in
/-- Tasks that are those of `ps` up to order are those of some order of `ps`. -/
theorem exists_payloads {ts : List (Task Node Payload)} {ps : List Payload}
    (h : ts.Perm (ps.map branchTask)) : ∃ ps' : List Payload, ps'.Perm ps ∧ ts = ps'.map branchTask := by
  have hps : (ps.map branchTask).filterMap (·.arg) = ps := by
    rw [List.filterMap_map]
    exact List.filterMap_some
  refine ⟨ts.filterMap (·.arg), hps ▸ h.filterMap _, ?_⟩
  rw [List.map_filterMap]
  refine ((List.filterMap_congr fun t ht => ?_).trans List.filterMap_some).symm
  obtain ⟨p, -, rfl⟩ := List.mem_map.mp (h.mem_iff.mp ht)
  rfl

/-- A task that runs alone has finished or has not. -/
theorem history_singleton {w : World} {limit : Nat} {b c : RunConfig}
    {t : Task Node Payload} (h : Within (buildGraph w) limit b c) (hpending : b.pending = [t]) :
    history c = b.executed ∨
      history c = b.executed ++ [t] ∧ ∃ u, (buildGraph w).exec t.node b.state t.arg = .ok u := by
  have hperm := h.perm
  rw [hpending] at hperm
  rw [history, h.executed]
  cases hwrites : c.writes with
  | nil => exact .inl (List.append_nil _)
  | cons x ws =>
    rw [hwrites] at hperm
    have hnil : ws = [] := by
      have := hperm.length_eq
      simp only [List.map_cons, List.length_append, List.length_cons, List.length_map,
        List.length_nil] at this
      exact List.eq_nil_of_length_eq_zero (by omega)
    obtain rfl : x.1 = t := by
      have := hperm.subset (List.mem_append_left _ (List.mem_cons_self ..))
      exact List.mem_singleton.mp this
    exact .inr ⟨by rw [hnil]; rfl, x.2, h.exec x (by rw [hwrites]; simp)⟩

/-- The tasks that have finished begin the tasks of some run: the decomposition,
    the branches it sends in the order `ps`, the assembly and the reporter. -/
inductive HistoryOf (w : World) (question : Str) (ts : List (Task Node Payload)) : Prop where
  | empty (h : ts = [])
  | begun {decomposed : DecomposedQuestion} {ps : List Payload}
      (hdecomposes : w.Decomposes question decomposed)
      (hps : ps.Perm (payloads w.settings decomposed.subQuestions)) (h : ts <+: runTasks ps)

theorem Phase.historyOf {w : World} {question : Str} {limit n : Nat} {s : ResearchState}
    {decomposed : DecomposedQuestion} (hdecomposes : w.Decomposes question decomposed)
    {b c : RunConfig} (h : Phase w s decomposed.subQuestions [nodeTask .decompose] n b)
    (hwithin : Within (buildGraph w) limit b c) : HistoryOf w question (history c) := by
  have hsplit (bs : List (Payload × BranchUpdate)) (ts : List (Task Node Payload)) :
      [nodeTask .decompose] ++ branchTasks bs ++ ts =
        [nodeTask .decompose] ++ (bs.map (·.1)).map branchTask ++ ts := by
    simp [branchTasks, Function.comp_def]
  cases h with
  | fannedOut =>
    obtain ⟨ps, hps, htasks⟩ := exists_payloads hwithin.perm
    refine .begun hdecomposes hps ?_
    rw [history, hwithin.executed, runTasks, ← htasks]
    exact ⟨c.pending ++ [nodeTask .assemble, nodeTask .reporter], by simp [Config.barrier]⟩
  | @joined bs hjoined =>
    refine .begun hdecomposes hjoined.perm ?_
    rcases history_singleton hwithin rfl with hnone | ⟨hall, -⟩
    · rw [hnone]
      exact ⟨_, (hsplit bs _)⟩
    · rw [hall]
      exact ⟨[nodeTask .reporter], by rw [Config.barrier, List.append_assoc]; exact hsplit bs _⟩
  | @assembled bs u hjoined _ =>
    refine .begun hdecomposes hjoined.perm ?_
    rcases history_singleton hwithin rfl with hnone | ⟨hall, -⟩
    · rw [hnone]
      exact ⟨[nodeTask .reporter], by rw [Config.barrier, List.append_assoc]; exact hsplit bs _⟩
    · rw [hall]
      exact ⟨[], by rw [Config.barrier, List.append_nil, List.append_assoc]; exact hsplit bs _⟩
  | @reported bs u hjoined _ =>
    refine .begun hdecomposes hjoined.perm ⟨[], ?_⟩
    obtain ⟨hwrites, -⟩ : c.writes = [] ∧ c.pending = [] := by
      simpa [Config.barrier] using hwithin.perm
    rw [history, hwithin.executed, hwrites]
    simp only [List.map_nil, List.append_nil]
    exact hsplit bs _

theorem historyOf_of_reaches {w : World} {question : Str} {limit : Nat} {c : RunConfig}
    (h : Reaches (buildGraph w) ResearchState.schema limit
      (init (buildGraph w) { question := some question }) c) : HistoryOf w question (history c) := by
  obtain ⟨b, hphase, hwithin⟩ := exists_runPhase h
  cases hphase with
  | start =>
    rcases history_singleton hwithin rfl with hnone | ⟨hall, u, hexec⟩
    · exact .empty hnone
    · obtain ⟨decomposed, hdecomposes, -⟩ := decomposes_of_decomposeNode rfl hexec
      exact .begun hdecomposes (.refl _) (hall ▸ ⟨_, (List.append_assoc _ _ _).symm⟩)
  | @decomposed u qs _ hdecompose hqs hphase =>
    obtain ⟨decomposed, hdecomposes, hqs'⟩ := decomposes_of_decomposeNode rfl hdecompose
    rw [hqs, Option.some.injEq] at hqs'
    subst hqs'
    exact hphase.historyOf hdecomposes hwithin

/-! ## What it takes -/

/-- The searches that a task makes when it finds the state `s`, raising or not. -/
def World.searches (w : World) (s : ResearchState) (t : Task Node Payload) : Nat :=
  (w.call t.node s t.arg).searches

/-- The model calls that it makes. -/
def World.modelCalls (w : World) (s : ResearchState) (t : Task Node Payload) : Nat :=
  (w.call t.node s t.arg).prompts.length

theorem within_researchNode (settings : Settings) (branch : Branch) (payload : Payload) :
    (researchNode settings branch payload).Within 2 1 := by
  change (researchNode settings branch payload).Within (2 + 0) (0 + 1)
  refine (within_searcherNode settings payload branch.tavilyClient branch.tavily).bind
    fun searchUpdate => ?_
  split
  · exact (within_summarizerNode settings _ branch.haiku).then_free fun _ => Calling.within_pure _
  · exact ⟨le_rfl, Nat.zero_le _⟩

/-- The tasks that have begun by some point of a run: the first ones of a run, the
    branches all at once. -/
inductive BegunOf (w : World) (question : Str) (ts : List (Task Node Payload)) : Prop where
  | decompose (h : ts = [nodeTask .decompose])
  | fannedOut {decomposed : DecomposedQuestion} {ps : List Payload}
      (hdecomposes : w.Decomposes question decomposed)
      (hps : ps.Perm (payloads w.settings decomposed.subQuestions)) (h : ts <+: runTasks ps)

/-- Within a superstep tasks only change from pending to finished. -/
theorem begun_perm {w : World} {limit : Nat} {b c : RunConfig}
    (h : Within (buildGraph w) limit b c) :
    (history c ++ c.pending).Perm (b.executed ++ b.pending) := by
  rw [history, h.executed, List.append_assoc]
  exact h.perm.append_left _

theorem RunPhase.begunOf {w : World} {question : Str} {b : RunConfig}
    (h : RunPhase w { question := some question } b) :
    BegunOf w question (b.executed ++ b.pending) := by
  cases h with
  | start => exact .decompose rfl
  | @decomposed u qs _ hdecompose hqs hphase =>
    obtain ⟨decomposed, hdecomposes, hqs'⟩ := decomposes_of_decomposeNode rfl hdecompose
    obtain rfl := Option.some.inj (hqs.symm.trans hqs')
    cases hphase with
    | fannedOut =>
      exact .fannedOut hdecomposes (.refl _) ⟨[nodeTask .assemble, nodeTask .reporter], rfl⟩
    | @joined bs hjoined =>
      refine .fannedOut hdecomposes hjoined.perm ⟨[nodeTask .reporter], ?_⟩
      simp [Config.barrier, runTasks, branchTasks, Function.comp_def]
    | @assembled bs ua hjoined _ =>
      refine .fannedOut hdecomposes hjoined.perm ⟨[], ?_⟩
      simp [Config.barrier, runTasks, branchTasks, Function.comp_def]
    | @reported bs ua hjoined _ =>
      refine .fannedOut hdecomposes hjoined.perm ⟨[], ?_⟩
      simp [Config.barrier, runTasks, branchTasks, Function.comp_def]

/-- At any point of a run its tasks, finished and pending, are those of a run that
    has begun. -/
theorem exists_begunOf {w : World} {question : Str} {limit : Nat} {c : RunConfig}
    (h : Reaches (buildGraph w) ResearchState.schema limit
      (init (buildGraph w) { question := some question }) c) :
    ∃ ts, (history c ++ c.pending).Perm ts ∧ BegunOf w question ts := by
  obtain ⟨b, hphase, hwithin⟩ := exists_runPhase h
  exact ⟨_, begun_perm hwithin, hphase.begunOf⟩

omit [UnicodeData] in
/-- What every branch spends at most, the tasks that have begun spend at most in
    all. -/
theorem BegunOf.sum_le {w : World} {question : Str} {ts : List (Task Node Payload)}
    (h : BegunOf w question ts) (cost : Task Node Payload → Nat) (most : Nat)
    (hbranch : ∀ p, cost (branchTask p) ≤ most) :
    (ts.map cost).sum ≤ cost (nodeTask .decompose) + min 5 w.settings.maxSubQuestions * most +
      cost (nodeTask .assemble) + cost (nodeTask .reporter) := by
  cases h with
  | decompose h =>
    rw [h, List.map_singleton, List.sum_singleton]
    omega
  | @fannedOut decomposed ps _ hps hprefix =>
    obtain ⟨rest, hrest⟩ := hprefix
    have hlength : ps.length ≤ min 5 w.settings.maxSubQuestions := by
      rw [hps.length_eq, length_payloads]
      have := decomposed.length_le
      omega
    have hbranches : (ps.map fun p => cost (branchTask p)).sum ≤ ps.length * most := by
      have hsum := List.sum_le_card_nsmul (ps.map fun p => cost (branchTask p)) most
        (List.forall_mem_map.mpr fun p _ => hbranch p)
      simpa using hsum
    have hmost := Nat.mul_le_mul_right most hlength
    have hsum := congrArg (fun us : List (Task Node Payload) => (us.map cost).sum) hrest
    simp only [runTasks, List.map_append, List.sum_append, List.map_map, List.map_cons,
      List.map_nil, List.sum_cons, List.sum_nil, Function.comp_def] at hsum
    omega

omit [UnicodeData] in
theorem BegunOf.nodup {w : World} {question : Str} {ts : List (Task Node Payload)}
    (h : BegunOf w question ts) : ts.Nodup := by
  cases h with
  | decompose h => simp [h]
  | @fannedOut decomposed ps _ hps hprefix =>
    have hbranches : (ps.map branchTask).Nodup :=
      (hps.nodup_iff.mpr (nodup_payloads _ _)).map fun p p' hp => by simpa [branchTask] using hp
    have hnodup : (runTasks ps).Nodup := by
      simp [runTasks, List.nodup_append, hbranches, nodeTask, branchTask]
    exact hnodup.sublist hprefix.sublist

/-- At any point of any run, failing ones included, the tasks that have finished
    are the first tasks of a run, and no task has begun twice. Whatever states the
    tasks have found, those that have finished, raised or are under way have made
    no more searches and model calls than the cap on the sub-questions allows. -/
theorem effort_bounded (w : World) (question : Str) {limit : Nat} {c : RunConfig}
    (h : Reaches (buildGraph w) ResearchState.schema limit
      (init (buildGraph w) { question := some question }) c) :
    let begun := history c ++ c.pending
    let cap := min 5 w.settings.maxSubQuestions
    HistoryOf w question (history c) ∧ begun.Nodup ∧ begun.length ≤ cap + 3 ∧
      ∀ found : Task Node Payload → ResearchState,
        (begun.map fun t => w.searches (found t) t).sum ≤ 2 * cap ∧
        (begun.map fun t => w.modelCalls (found t) t).sum ≤ cap + 2 := by
  obtain ⟨ts, hperm, hbegun⟩ := exists_begunOf h
  refine ⟨historyOf_of_reaches h, hperm.nodup_iff.mpr hbegun.nodup, ?_, fun found => ⟨?_, ?_⟩⟩
  · have hone : ∀ us : List (Task Node Payload), us.length = (us.map fun _ => 1).sum := by simp
    have hcount := hbegun.sum_le (fun _ => 1) 1 fun _ => le_rfl
    rw [← hone, ← hperm.length_eq] at hcount
    omega
  · rw [(hperm.map _).sum_eq]
    have hbound := hbegun.sum_le (fun t => w.searches (found t) t) 2 fun p =>
      (within_researchNode w.settings (w.branch p.index) p).searches_le
    have hdecompose : w.searches (found (nodeTask .decompose)) (nodeTask .decompose) ≤ 0 :=
      (within_decomposeNode _ _ _).searches_le
    have hassemble : w.searches (found (nodeTask .assemble)) (nodeTask .assemble) ≤ 0 :=
      (within_assembleNode _ _ _).searches_le
    have hreporter : w.searches (found (nodeTask .reporter)) (nodeTask .reporter) = 0 := rfl
    omega
  · rw [(hperm.map _).sum_eq]
    have hbound := hbegun.sum_le (fun t => w.modelCalls (found t) t) 1 fun p =>
      (within_researchNode w.settings (w.branch p.index) p).prompts_le
    have hdecompose : w.modelCalls (found (nodeTask .decompose)) (nodeTask .decompose) ≤ 1 :=
      (within_decomposeNode _ _ _).prompts_le
    have hassemble : w.modelCalls (found (nodeTask .assemble)) (nodeTask .assemble) ≤ 1 :=
      (within_assembleNode _ _ _).prompts_le
    have hreporter : w.modelCalls (found (nodeTask .reporter)) (nodeTask .reporter) = 0 := rfl
    omega

omit [UnicodeData] in
theorem effort_bounded_sunnyWorld :
    ∃ c, Reaches (@buildGraph .basicLatin sunnyWorld) ResearchState.schema recursionLimit
        (init (@buildGraph .basicLatin sunnyWorld) { question := some (lit "question") }) c ∧
      c.Done ∧ HistoryOf sunnyWorld (lit "question") (history c) ∧
      (history c ++ c.pending).Nodup ∧ (history c ++ c.pending).length ≤ 8 ∧
      ∀ found : Task Node Payload → ResearchState,
        ((history c ++ c.pending).map
          fun t => @World.searches .basicLatin sunnyWorld (found t) t).sum ≤ 10 ∧
        ((history c ++ c.pending).map
          fun t => @World.modelCalls .basicLatin sunnyWorld (found t) t).sum ≤ 7 := by
  obtain ⟨c, hreach, hdone⟩ := @exists_done_of_reaches .basicLatin sunnyWorld (lit "question")
    (@sound_sunnyWorld .basicLatin _) recursionLimit (by decide) _ .refl
  exact ⟨c, hreach, hdone,
    @effort_bounded .basicLatin sunnyWorld (lit "question") recursionLimit c hreach⟩

end ResearchSynthesis
