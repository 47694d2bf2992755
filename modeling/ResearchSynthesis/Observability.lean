-- SUMMARY: `observability.py`: the pricing table, cost entries, the cost document's rows, and the Langfuse client.
import ResearchSynthesis.Config
import ResearchSynthesis.Exceptions
import ResearchSynthesis.State
import ResearchSynthesis.Python.Decimal
import ResearchSynthesis.Python.Files

/-!
# Observability

`modelCosts` is the single source of pricing, and `logLlmCall` the single way a
cost entry is made. Prices are in USD per million tokens.
-/

namespace ResearchSynthesis
open Python

variable [UnicodeData]

/-! ## Costs -/

structure Prices where
  input : ℚ
  output : ℚ

def modelCosts : List (Str × Prices) :=
  [(lit "claude-sonnet-5", ⟨2, 10⟩),
   (lit "claude-sonnet-4-6", ⟨3, 15⟩),
   (lit "claude-haiku-4-5-20251001", ⟨1, 5⟩)]

def tokensPerUnit : ℚ := 1000000

/-- The USD cost of one call; `ValueError` for an unknown model. The source
    computes it in floats; here they are assumed neither to round nor to overflow. -/
def calculateCost (model : Str) (inputTokens outputTokens : Int) : Except Exn ℚ :=
  match modelCosts.lookup model with
  | none => .error ⟨.valueError, lit "Unknown model (no pricing in MODEL_COSTS): " ++ model.repr⟩
  | some prices =>
    .ok ((inputTokens * prices.input + outputTokens * prices.output) / tokensPerUnit)

/-- Build the cost entry of one LLM call. -/
def logLlmCall (node model : Str) (inputTokens outputTokens latencyMs : Int) :
    Except Exn CostEntry := do
  let costUsd ← calculateCost model inputTokens outputTokens
  return { node, model, inputTokens, outputTokens, costUsd, latencyMs }

/-! ## The cost document -/

/-- Make a string safe for a markdown table cell. -/
def cell (text : Str) : Str :=
  let escaped := (text.replace '\\' (lit "\\\\")).replace '|' (lit "\\|")
  Str.join (lit " ") escaped.split

/-- The arguments of `write_cost_row`. -/
structure CostRow where
  date : Str
  question : Str
  subQuestionCount : Nat
  totalCostUsd : ℚ
  latencyS : ℚ
  nodeCount : Nat

/-- The line that `write_cost_row` appends. -/
def CostRow.text (row : CostRow) : Str :=
  lit "| " ++ row.date ++ lit " " ++
    (lit "| " ++ cell row.question ++ lit " ") ++
    (lit "| " ++ natStr row.subQuestionCount ++ lit " sub-questions ") ++
    (lit "| $" ++ formatFixed 4 row.totalCostUsd ++ lit " ") ++
    (lit "| " ++ formatFixed 1 row.latencyS ++ lit "s ") ++
    (lit "| " ++ natStr row.nodeCount ++ lit " nodes |\n")

/-- What encoding a lone surrogate raises. The code reads no text of it. -/
def unicodeEncodeError : Exn := ⟨.unicodeEncodeError, lit "surrogates not allowed"⟩

/-- Append one summary row to the cost document. -/
def writeCostRow (row : CostRow) (path : Path) (answer : FileAnswer Exn) (disk : Disk Exn) :
    Except Exn Unit × Disk Exn :=
  disk.appendText path row.text unicodeEncodeError answer

/-! ## Langfuse -/

/-- What the Langfuse constructors do where they are called: raise, or return. -/
structure Langfuse where
  client : Except Exn Unit := .ok ()
  callbackHandler : Except Exn Unit := .ok ()

/-- Whether a setting is a non-empty string. -/
def isSet (s : Option Str) : Bool := !(s.getD []).isEmpty

/-- The Langfuse client, or `none` when a key is absent. -/
def getLangfuseClient (settings : Settings) (langfuse : Langfuse) : Except Exn (Option Unit) :=
  if !(isSet settings.langfusePublicKey && isSet settings.langfuseSecretKey) then .ok none
  else langfuse.client.map some

/-! ## Facts about costs -/

omit [UnicodeData] in
/-- Every price is a whole number of dollars. -/
theorem prices_integral {model : Str} {prices : Prices} (h : modelCosts.lookup model = some prices) :
    ∃ i o : ℤ, prices.input = i ∧ prices.output = o := by
  have hmem : ∀ entry ∈ modelCosts, ∃ i o : ℤ, entry.2.input = i ∧ entry.2.output = o := by
    simp only [modelCosts, List.forall_mem_cons, List.not_mem_nil, false_implies, implies_true,
      and_true]
    exact ⟨⟨2, 10, by simp⟩, ⟨3, 15, by simp⟩, ⟨1, 5, by simp⟩⟩
  obtain ⟨before, after, hsplit, -⟩ := List.lookup_eq_some_iff.mp h
  exact hmem (model, prices) (by rw [hsplit]; simp)

theorem calculateCost_eq_ok_iff {model : Str} {i o : Int} {cost : ℚ} :
    calculateCost model i o = .ok cost ↔
      ∃ prices, modelCosts.lookup model = some prices ∧
        cost = (i * prices.input + o * prices.output) / tokensPerUnit := by
  unfold calculateCost
  cases modelCosts.lookup model with
  | none => simp
  | some prices => simp [eq_comm]

/-- A cost is a whole number of millionths of a dollar. -/
theorem calculateCost_millionths {model : Str} {i o : Int} {cost : ℚ}
    (h : calculateCost model i o = .ok cost) : ∃ n : ℤ, cost = n / 10 ^ 6 := by
  obtain ⟨prices, hlookup, rfl⟩ := calculateCost_eq_ok_iff.mp h
  obtain ⟨a, b, ha, hb⟩ := prices_integral hlookup
  refine ⟨i * a + o * b, ?_⟩
  rw [ha, hb, tokensPerUnit]
  push_cast
  norm_num

theorem logLlmCall_eq_ok_iff {node model : Str} {i o latency : Int} {entry : CostEntry} :
    logLlmCall node model i o latency = .ok entry ↔
      ∃ cost, calculateCost model i o = .ok cost ∧
        entry = ⟨node, model, i, o, cost, latency⟩ := by
  unfold logLlmCall
  cases calculateCost model i o with
  | error e => simp [bind, Except.bind]
  | ok cost => simp [bind, Except.bind, pure, Except.pure, eq_comm]

/-- Only the price of the model is missing where `logLlmCall` raises. -/
theorem logLlmCall_error_congr {node model : Str} {i o latency : Int} {e : Exn}
    (h : logLlmCall node model i o latency = .error e) (i' o' : Int) :
    logLlmCall node model i' o' latency = .error e := by
  unfold logLlmCall calculateCost at h ⊢
  cases hprices : modelCosts.lookup model with
  | none =>
    rw [hprices] at h
    exact h
  | some prices =>
    rw [hprices] at h
    cases h

/-- A priced model never makes `logLlmCall` raise. -/
theorem logLlmCall_of_priced {node model : Str} {i o latency : Int} {prices : Prices}
    (h : modelCosts.lookup model = some prices) :
    ∃ entry, logLlmCall node model i o latency = .ok entry :=
  ⟨_, logLlmCall_eq_ok_iff.mpr ⟨_, calculateCost_eq_ok_iff.mpr ⟨prices, h, rfl⟩, rfl⟩⟩

end ResearchSynthesis
