-- SUMMARY: The cost ledger of a whole run: one entry per paid call, and every total the sum of them.
import ResearchSynthesis.Graph.Degradation
import ResearchSynthesis.Report.CostTable

/-!
# The cost ledger

Every model call that returns leaves one entry on the cost log, priced by the
pricing table, and nothing else does. The report and the cost document add the
log up separately.
-/

namespace ResearchSynthesis
open Python StateGraph

/-! ## Totals in the report -/

section
variable [UnicodeData]

omit [UnicodeData] in
theorem formatTotal_suffix (costLog : List CostEntry) :
    formatTotal (totalCost costLog) <:+ formatCostTable costLog := by
  rw [formatCostTable, List.append_cons _ (lit "")]
  exact Str.suffix_join _ _ _

/-- The report ends with its total. -/
theorem formatTotal_suffix_render {d : Document} (h : d.costs ≠ []) :
    formatTotal (totalCost d.costs) <:+ d.render := by
  refine (formatTotal_suffix d.costs).trans ?_
  obtain ⟨bs, hbs⟩ : ∃ bs, d.blocks = bs ++ [.text (formatCostTable d.costs)] := by
    rw [Document.blocks, Document.parts, if_pos h, List.flatten_append]
    exact ⟨_, rfl⟩
  rw [Document.render, hbs, List.map_append]
  exact Str.suffix_join _ _ _

end

/-! ## Entries -/

/-- `e` accounts for one call of `model` by `node`: the call's tokens, priced by
    the pricing table. -/
structure EntryOf (node model : Str) (tokens : Int × Int) (e : CostEntry) : Prop where
  node : e.node = node
  model : e.model = model
  tokens : (e.inputTokens, e.outputTokens) = tokens
  cost : ∃ prices, modelCosts.lookup e.model = some prices ∧
    e.costUsd = (e.inputTokens * prices.input + e.outputTokens * prices.output) / 1000000

variable [UnicodeData]

theorem entryOf_of_logLlmCall {node model : Str} {tokens : Int × Int} {latency : Int}
    {e : CostEntry} (h : logLlmCall node model tokens.1 tokens.2 latency = .ok e) :
    EntryOf node model tokens e := by
  obtain ⟨cost, hcost, rfl⟩ := logLlmCall_eq_ok_iff.mp h
  obtain ⟨prices, hprices, rfl⟩ := calculateCost_eq_ok_iff.mp hcost
  exact ⟨rfl, rfl, rfl, prices, hprices, rfl⟩

/-- An entry's cost is a whole number of millionths of a dollar. -/
theorem EntryOf.millionths {node model : Str} {tokens : Int × Int} {e : CostEntry}
    (h : EntryOf node model tokens e) : ∃ n : ℤ, e.costUsd = n / 10 ^ 6 := by
  obtain ⟨prices, hprices, hcost⟩ := h.cost
  exact calculateCost_millionths (calculateCost_eq_ok_iff.mpr ⟨prices, hprices, hcost⟩)

/-! ## The calls of the branches -/

/-- The response of a branch's Haiku call, if there was a call and it returned. -/
def World.haikuResponse (w : World) (payload : Payload) : Option AIMessage :=
  let searchResult := searchResultOf payload (w.branch payload.index).tavily
  if searchResult.results = [] then none
  else ((w.branch payload.index).haiku.invoke
    (buildMessages payload.subQuestion searchResult.results)).toOption

/-- The entry of a summarizer, next to its summary: they carry the same tokens
    and the same cost, and there is no entry for a summary nobody paid for. -/
structure Accounted (response : Option AIMessage) (modelName : Str) (b : BranchUpdate) : Prop where
  entry : Option.Rel (fun r e => EntryOf (lit "summarizer") modelName r.tokens e) response b.entry
  tokens : b.summary.tokensUsed = (b.entry.map fun e => e.inputTokens + e.outputTokens).getD 0
  cost : b.summary.costUsd = (b.entry.map (·.costUsd)).getD 0

theorem Researched.accounted {w : World} {payload : Payload} {b : BranchUpdate}
    (h : Researched w.settings (w.branch payload.index) payload b) :
    Accounted (w.haikuResponse payload) w.settings.workerModel b := by
  have hx := h.summarized
  rw [h.searchResult] at hx
  rcases runSummarize_eq_ok_iff.mp hx with
    ⟨hempty, heq⟩ | ⟨exc, hne, hinvoke, heq⟩ | ⟨response, entry, hne, hinvoke, hlog, heq⟩
  · obtain ⟨hsummary, hentry⟩ := Summarized.mk.inj heq
    rw [World.haikuResponse, if_pos hempty]
    exact ⟨hentry ▸ .none, by rw [hsummary, hentry]; rfl, by rw [hsummary, hentry]; rfl⟩
  · obtain ⟨hsummary, hentry⟩ := Summarized.mk.inj heq
    have hnone : w.haikuResponse payload = none := by
      rw [World.haikuResponse, if_neg hne]
      exact congrArg Except.toOption hinvoke
    rw [hnone]
    exact ⟨hentry ▸ .none, by rw [hsummary, hentry]; rfl, by rw [hsummary, hentry]; rfl⟩
  · obtain ⟨hsummary, hentry⟩ := Summarized.mk.inj heq
    have hsome : w.haikuResponse payload = some response := by
      rw [World.haikuResponse, if_neg hne]
      exact congrArg Except.toOption hinvoke
    rw [hsome]
    exact ⟨hentry ▸ .some (entryOf_of_logLlmCall hlog), by rw [hsummary, hentry]; rfl,
      by rw [hsummary, hentry]; rfl⟩

/-! ## The ledger of a run -/

/-- The final state `s` accounts for the run: `d` for the decomposition, `es` for
    the Haiku calls that returned, one each, `a` for the assembly. -/
structure Ledger (w : World) (question : Str) (s : ResearchState) (d : CostEntry)
    (es : List CostEntry) (a : CostEntry) : Prop where
  costLog : s.costLog.Perm (d :: es ++ [a])
  decompose : ∃ result, w.decomposeCall.invoke (buildDecomposeMessages question) = .ok result ∧
    EntryOf (lit "supervisor_decompose") w.settings.supervisorModel (tokens result.raw) d
  summarizers : ∃ qs responses, s.subQuestions = some qs ∧
    responses.Perm ((payloads w.settings qs).filterMap w.haikuResponse) ∧
    List.Forall₂ (fun r e => EntryOf (lit "summarizer") w.settings.workerModel r.tokens e)
      responses es
  assemble : EntryOf (lit "supervisor_assemble") w.settings.supervisorModel
    (assembled (w.assembleCall.invoke (buildAssembleMessages question s.summaries))).2 a
  /-- The report's last line is the total, and its digits say just the sum. -/
  report : let total := d.costUsd + (es.map (·.costUsd)).sum + a.costUsd
    ∃ report, s.finalReport = some report ∧
      lit "**Total: $" ++ formatFixed 6 total ++ lit "**" <:+ report ∧
      decimalValue (formatFixed 6 total) = total
  row : ∀ call : ResearchCall,
    (call.costRow s).totalCostUsd = d.costUsd + (es.map (·.costUsd)).sum + a.costUsd
  tokens : (es.map fun e => e.inputTokens + e.outputTokens).sum =
    (s.summaries.map (·.tokensUsed)).sum
  costs : (es.map (·.costUsd)).sum = (s.summaries.map (·.costUsd)).sum

omit [UnicodeData] in
theorem forall₂_filterMap {α β γ : Type} {R : β → γ → Prop} {f : α → Option β} {g : α → Option γ}
    {xs : List α} (h : ∀ x ∈ xs, Option.Rel R (f x) (g x)) :
    List.Forall₂ R (xs.filterMap f) (xs.filterMap g) := by
  induction xs with
  | nil => exact .nil
  | cons x xs ih =>
    have hxs := ih fun y hy => h y (List.mem_cons_of_mem _ hy)
    have hx := h x (by simp)
    rw [List.filterMap_cons, List.filterMap_cons]
    generalize f x = b at hx ⊢
    generalize g x = c at hx ⊢
    cases hx with
    | none => exact hxs
    | some hbc => exact .cons hbc hxs

omit [UnicodeData] in
/-- What no branch was charged for adds nothing. -/
theorem sum_filterMap_eq {α β M : Type} [AddCommMonoid M] {g : α → Option β} {f : β → M}
    {f' : α → M} {xs : List α} (h : ∀ x ∈ xs, f' x = ((g x).map f).getD 0) :
    ((xs.filterMap g).map f).sum = (xs.map f').sum := by
  induction xs with
  | nil => rfl
  | cons x xs ih =>
    have hxs := ih fun y hy => h y (List.mem_cons_of_mem _ hy)
    have hx := h x (by simp)
    rw [List.filterMap_cons, List.map_cons, List.sum_cons, hx]
    cases g x with
    | none => simpa using hxs
    | some b => simp [hxs]

omit [UnicodeData] in
theorem totalCost_ledger (d a : CostEntry) (es : List CostEntry) :
    totalCost ([d] ++ es ++ [a]) = d.costUsd + (es.map (·.costUsd)).sum + a.costUsd := by
  simp [totalCost, add_assoc]

theorem Completion.accounted {w : World} {question : Str} (k : Completion w question)
    {x : Payload × BranchUpdate} (hx : x ∈ k.branches) :
    Accounted (w.haikuResponse x.1) w.settings.workerModel x.2 :=
  (k.joined.researched x hx).accounted

/-- Every entry of a run accounts for a call of one of the nodes. -/
theorem Completion.entryOf {w : World} {question : Str} (k : Completion w question) {e : CostEntry}
    (he : e ∈ k.state.costLog) :
    ∃ (node : String) (model : Str) (tokens : Int × Int), EntryOf (lit node) model tokens e := by
  simp only [state, reporterState, List.mem_append, List.mem_singleton] at he
  rcases he with (rfl | he) | rfl
  · obtain ⟨result, -, -, hlog⟩ := runDecompose_eq_ok_iff.mp k.decomposes
    exact ⟨_, _, _, entryOf_of_logLlmCall hlog⟩
  · obtain ⟨x, hx, hentry⟩ := List.mem_filterMap.mp he
    have hrel := (k.accounted hx).entry
    rw [hentry] at hrel
    generalize w.haikuResponse x.1 = response at hrel
    cases hrel with
    | some h => exact ⟨_, _, _, h⟩
  · obtain ⟨-, hlog⟩ := runAssemble_eq_ok_iff.mp k.assembles
    exact ⟨_, _, _, entryOf_of_logLlmCall hlog⟩

theorem Completion.totalCost_millionths {w : World} {question : Str} (k : Completion w question) :
    ∃ n : ℤ, totalCost k.state.costLog = n / 10 ^ 6 := by
  refine ResearchSynthesis.totalCost_millionths fun e he => ?_
  obtain ⟨_, _, _, hentry⟩ := k.entryOf he
  exact hentry.millionths

theorem Completion.ledger {w : World} {question : Str} (k : Completion w question) :
    Ledger w question k.state k.decomposeEntry (k.branches.filterMap (·.2.entry))
      k.assembleEntry := by
  obtain ⟨result, hresult, -, hlog⟩ := runDecompose_eq_ok_iff.mp k.decomposes
  obtain ⟨-, hassemble⟩ := runAssemble_eq_ok_iff.mp k.assembles
  have hd := entryOf_of_logLlmCall hlog
  have ha := entryOf_of_logLlmCall hassemble
  have hes := forall₂_filterMap fun x hx => (k.accounted hx).entry
  have htotal := totalCost_ledger k.decomposeEntry k.assembleEntry
    (k.branches.filterMap (·.2.entry))
  refine
    { costLog := .refl _
      decompose := ⟨result, hresult, hd⟩
      summarizers := ⟨_, _, rfl, ?_, hes⟩
      assemble := ha
      report := ⟨_, rfl, ?_, ?_⟩
      row := fun call => htotal
      tokens := ?_
      costs := ?_ }
  · have hperm := k.joined.perm.filterMap w.haikuResponse
    rwa [List.filterMap_map] at hperm
  · rw [← htotal]
    exact formatTotal_suffix_render (d := k.reporterState.document)
      (List.append_ne_nil_of_right_ne_nil _ (List.cons_ne_nil _ _))
  · obtain ⟨n, hn⟩ := k.totalCost_millionths
    rw [← htotal]
    exact decimalValue_formatFixed (by decide) hn
  · simp only [state, reporterState, List.map_map]
    exact sum_filterMap_eq fun x hx => (k.accounted hx).tokens
  · simp only [state, reporterState, List.map_map]
    exact sum_filterMap_eq fun x hx => (k.accounted hx).cost

/-- In every run that reaches its end, the cost log holds one entry for each call
    that was paid for and nothing else, and every total is the sum of these. -/
theorem costLog_ledger (w : World) (question : Str) {limit : Nat} {c : RunConfig}
    (hreach : Reaches (buildGraph w) ResearchState.schema limit
      (init (buildGraph w) { question := some question }) c) (hdone : c.Done) :
    ∃ d es a, Ledger w question c.state d es a := by
  obtain ⟨k, hstate, -⟩ := exists_completion hreach hdone
  rw [hstate]
  exact ⟨_, _, _, k.ledger⟩

omit [UnicodeData] in
theorem costLog_ledger_sunnyWorld :
    ∃ (s : ResearchState) (d : CostEntry) (es : List CostEntry) (a : CostEntry),
      @Ledger .basicLatin sunnyWorld (lit "question") s d es a := by
  obtain ⟨c, hreach, hdone⟩ := @exists_done_of_reaches .basicLatin sunnyWorld (lit "question")
    (@sound_sunnyWorld .basicLatin _) recursionLimit (by decide) _ .refl
  exact ⟨c.state, @costLog_ledger .basicLatin sunnyWorld (lit "question") _ c hreach hdone⟩

end ResearchSynthesis
