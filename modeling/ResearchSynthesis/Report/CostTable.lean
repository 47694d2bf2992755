-- SUMMARY: The report's cost table: one row an entry, exact figures, and a total that is their sum.
import ResearchSynthesis.Report
import ResearchSynthesis.Observability.CostDocument

/-!
# The cost table

Every price is a whole number of dollars per million tokens, so every cost is a
whole number of millionths of a dollar. Six decimals print such a number
exactly, and sums of them too: the rows and the total, rounded independently,
balance.
-/

namespace ResearchSynthesis
open Python CommonMark

/-- The nodes under whose names the agents log their calls. -/
def agentNodes : List Str :=
  [lit "supervisor_decompose", lit "summarizer", lit "supervisor_assemble"]

/-! ## Whole millionths -/

theorem totalCost_millionths {costLog : List CostEntry}
    (h : ∀ e ∈ costLog, ∃ n : ℤ, e.costUsd = n / 10 ^ 6) :
    ∃ n : ℤ, totalCost costLog = n / 10 ^ 6 := by
  induction costLog with
  | nil => exact ⟨0, by simp [totalCost]⟩
  | cons e costLog ih =>
    obtain ⟨m, hm⟩ := h e (by simp)
    obtain ⟨n, hn⟩ := ih fun x hx => h x (List.mem_cons_of_mem _ hx)
    refine ⟨m + n, ?_⟩
    rw [totalCost, List.map_cons, List.sum_cons, ← totalCost, hm, hn]
    push_cast
    ring

/-! ## Integers -/

theorem intStr_natCast (n : Nat) : intStr (n : Int) = natStr n := by
  simp [intStr, lit, natStr, toString, Int.repr, Nat.repr]

theorem mem_intStr {i : Int} {c : CodePoint} (h : c ∈ intStr i) :
    c = .scalar '-' ∨ ∃ d : Char, d.isDigit ∧ c = .scalar d := by
  cases i with
  | ofNat n =>
    rw [Int.ofNat_eq_natCast, intStr_natCast] at h
    obtain ⟨d, hd, rfl⟩ := List.mem_map.mp h
    exact .inr ⟨d, isDigit_of_mem_toDigits hd, rfl⟩
  | negSucc n =>
    have hneg : intStr (Int.negSucc n) = .scalar '-' :: natStr (n + 1) := by
      simp [intStr, lit, natStr, toString, Int.repr, Nat.repr]
    rw [hneg] at h
    rcases List.mem_cons.mp h with rfl | h
    · exact .inl rfl
    · obtain ⟨d, hd, rfl⟩ := List.mem_map.mp h
      exact .inr ⟨d, isDigit_of_mem_toDigits hd, rfl⟩

theorem cellText_intStr (i : Int) : CellText (intStr i) := by
  refine CellText.of_plain fun c hc => ?_
  rcases mem_intStr hc with rfl | ⟨d, hd, rfl⟩
  · decide
  · exact plain_of_isDigit hd

theorem oneLine_intStr (i : Int) : (intStr i).OneLine := by
  intro c hc
  rcases mem_intStr hc with rfl | ⟨d, hd, rfl⟩
  · decide
  · exact isLineBreak_of_isDigit hd

/-! ## Tokens by model -/

/-- The tokens that the log records for a model, with `tokens` of an entry. -/
def tokensOf (tokens : CostEntry → Int) (model : Str) (costLog : List CostEntry) : Int :=
  ((costLog.filter (·.model = model)).map tokens).sum

/-- The tokens of each model added up, and priced once. -/
def aggregatedCost (costLog : List CostEntry) : ℚ :=
  (modelCosts.map fun x =>
    (tokensOf (·.inputTokens) x.1 costLog * x.2.input +
      tokensOf (·.outputTokens) x.1 costLog * x.2.output) / tokensPerUnit).sum

/-- Of a table with distinct keys, only the entry found takes part. -/
theorem sum_ite_lookup {table : List (Str × Prices)} (hnodup : (table.map Prod.fst).Nodup)
    {model : Str} {prices : Prices} (h : table.lookup model = some prices) (f : Prices → ℚ) :
    (table.map fun x => if model = x.1 then f x.2 else 0).sum = f prices := by
  induction table with
  | nil => cases h
  | cons x table ih =>
    obtain ⟨key, value⟩ := x
    rw [List.map_cons, List.nodup_cons] at hnodup
    rw [lookup_cons_eq_ite] at h
    rw [List.map_cons, List.sum_cons]
    by_cases hkey : key = model
    · rw [if_pos hkey] at h
      cases h
      have hrest : table.map (fun x => if model = x.1 then f x.2 else 0) = table.map fun _ => 0 := by
        refine List.map_congr_left fun y hy => if_neg ?_
        rintro rfl
        exact hnodup.1 (List.mem_map.mpr ⟨y, hy, hkey.symm⟩)
      rw [if_pos hkey.symm, hrest]
      simp
    · rw [if_neg hkey] at h
      rw [if_neg (Ne.symm hkey), ih hnodup.2 h, zero_add]

theorem nodup_modelCosts : (modelCosts.map Prod.fst).Nodup := by
  simp [modelCosts, lit]

/-- An entry priced by the table adds its cost to the aggregate. -/
theorem aggregatedCost_cons {e : CostEntry} {prices : Prices} (costLog : List CostEntry)
    (hlookup : modelCosts.lookup e.model = some prices)
    (hcost : e.costUsd = (e.inputTokens * prices.input + e.outputTokens * prices.output) /
      tokensPerUnit) :
    aggregatedCost (e :: costLog) = e.costUsd + aggregatedCost costLog := by
  have htokens (tokens : CostEntry → Int) (model : Str) :
      tokensOf tokens model (e :: costLog) =
        (if e.model = model then tokens e else 0) + tokensOf tokens model costLog := by
    rw [tokensOf, List.filter_cons]
    by_cases h : e.model = model <;> simp [h, tokensOf]
  have hsum := sum_ite_lookup nodup_modelCosts hlookup fun p =>
    (e.inputTokens * p.input + e.outputTokens * p.output) / tokensPerUnit
  rw [aggregatedCost, hcost, ← hsum, aggregatedCost, ← List.sum_map_add]
  refine congrArg List.sum (List.map_congr_left fun x _ => ?_)
  simp only [htokens]
  by_cases h : e.model = x.1
  · simp only [if_pos h]
    push_cast
    ring
  · simp only [if_neg h, zero_add]

/-! ## Entries of the agents -/

variable [UnicodeData]

/-- An entry that `log_llm_call` built for one of the agents, with a priced model. -/
structure Logged (e : CostEntry) : Prop where
  node : e.node ∈ agentNodes
  built : logLlmCall e.node e.model e.inputTokens e.outputTokens e.latencyMs = .ok e

namespace Logged

variable {e : CostEntry}

theorem priced (h : Logged e) : ∃ prices, modelCosts.lookup e.model = some prices ∧
    e.costUsd = (e.inputTokens * prices.input + e.outputTokens * prices.output) / tokensPerUnit := by
  obtain ⟨cost, hcost, he⟩ := logLlmCall_eq_ok_iff.mp h.built
  obtain ⟨prices, hlookup, rfl⟩ := calculateCost_eq_ok_iff.mp hcost
  exact ⟨prices, hlookup, congrArg CostEntry.costUsd he⟩

theorem millionths (h : Logged e) : ∃ n : ℤ, e.costUsd = n / 10 ^ 6 := by
  obtain ⟨cost, hcost, he⟩ := logLlmCall_eq_ok_iff.mp h.built
  rw [congrArg CostEntry.costUsd he]
  exact calculateCost_millionths hcost

theorem model_mem (h : Logged e) : e.model ∈ modelCosts.map Prod.fst := by
  obtain ⟨prices, hlookup, -⟩ := h.priced
  obtain ⟨before, after, hsplit, -⟩ := List.lookup_eq_some_iff.mp hlookup
  rw [hsplit]
  simp

end Logged

/-! ## The table -/

omit [UnicodeData] in
/-- The five cells of an entry's row. -/
def CostEntry.texts (e : CostEntry) : List Str :=
  [lit " " ++ e.node ++ lit " ",
   lit " " ++ e.model ++ lit " ",
   lit " " ++ intStr e.inputTokens ++ lit " ",
   lit " " ++ intStr e.outputTokens ++ lit " ",
   lit " $" ++ formatFixed 6 e.costUsd ++ lit " "]

omit [UnicodeData] in
theorem formatCostRow_eq_tableRow (e : CostEntry) : formatCostRow e = tableRow e.texts := by
  simp [formatCostRow, CostEntry.texts, tableRow, lit]

omit [UnicodeData] in
theorem cells_formatCostRow {e : CostEntry} (hnode : CellText e.node) (hmodel : CellText e.model) :
    cells (formatCostRow e) = [] :: e.texts ++ [[]] := by
  have hpadded {before text : Str} (htext : CellText text) (hbefore : CellText before) :
      CellText (before ++ text ++ lit " ") :=
    (hbefore.append htext).append (CellText.of_plain (by decide))
  rw [formatCostRow_eq_tableRow]
  refine cells_tableRow ?_
  simp only [CostEntry.texts, List.forall_mem_cons, List.not_mem_nil, false_implies, implies_true,
    and_true]
  refine ⟨hpadded hnode ?_, hpadded hmodel ?_, hpadded (cellText_intStr _) ?_,
    hpadded (cellText_intStr _) ?_, hpadded (cellText_formatFixed _ _) ?_⟩
  all_goals exact CellText.of_plain (by decide)

omit [UnicodeData] in
theorem oneLine_formatCostRow {e : CostEntry} (hnode : e.node.OneLine) (hmodel : e.model.OneLine) :
    (formatCostRow e).OneLine := by
  have hlit (s : String) (h : (lit s).OneLine) : (lit s).OneLine := h
  exact (((((hlit _ (by decide)).append hnode).append (hlit _ (by decide))).append hmodel).append
    (hlit _ (by decide))).append
    (((((hlit _ (by decide)).append (oneLine_intStr _)).append (hlit _ (by decide))).append
      (oneLine_intStr _)).append (hlit _ (by decide))) |>.append
    (((hlit _ (by decide)).append (oneLine_formatFixed _ _)).append (hlit _ (by decide)))

omit [UnicodeData] in
/-- The four lines above the rows. -/
def costTableHead : List Str :=
  [lit "## Run Cost",
   lit "",
   lit "| Node | Model | Input | Output | Cost |",
   lit "|------|-------|-------|--------|------|"]

omit [UnicodeData] in
theorem splitlines_formatCostTable {costLog : List CostEntry}
    (h : ∀ e ∈ costLog, (formatCostRow e).OneLine) :
    (formatCostTable costLog).splitlines =
      costTableHead ++ costLog.map formatCostRow ++ [[], formatTotal (totalCost costLog)] := by
  have htotal : (formatTotal (totalCost costLog)).OneLine := by
    have hlit (s : String) (h : (lit s).OneLine) : (lit s).OneLine := h
    exact ((hlit _ (by decide)).append (oneLine_formatFixed _ _)).append (hlit _ (by decide))
  have hlines : ∀ l ∈ costTableHead ++ costLog.map formatCostRow ++ [[]], l.OneLine := by
    intro l hl
    rcases List.mem_append.mp hl with hl | hl
    · rcases List.mem_append.mp hl with hl | hl
      · exact (by decide +kernel : ∀ l ∈ costTableHead, l.OneLine) l hl
      · obtain ⟨e, he, rfl⟩ := List.mem_map.mp hl
        exact h e he
    · rw [List.mem_singleton.mp hl]
      decide
  have hsplit := Str.splitlines_join_concat hlines (by simp) htotal (by simp [formatTotal, lit])
  simpa [formatCostTable, costTableHead, lit] using hsplit

/-- The table of a log that balances: a row an entry, each with the entry's exact
    cost, and below them the sum of these figures, which is also what the tokens
    of each model cost together. -/
structure Balanced (costLog : List CostEntry) : Prop where
  lines : (formatCostTable costLog).splitlines =
    costTableHead ++ costLog.map formatCostRow ++
      [[], lit "**Total: $" ++ formatFixed 6 (totalCost costLog) ++ lit "**"]
  rows : ∀ e ∈ costLog, cells (formatCostRow e) = [] :: e.texts ++ [[]]
  figures : ∀ e ∈ costLog, decimalValue (formatFixed 6 e.costUsd) = e.costUsd
  total : decimalValue (formatFixed 6 (totalCost costLog)) =
    (costLog.map fun e => decimalValue (formatFixed 6 e.costUsd)).sum
  aggregated : decimalValue (formatFixed 6 (totalCost costLog)) = aggregatedCost costLog

theorem totalCost_eq_aggregatedCost {costLog : List CostEntry} (h : ∀ e ∈ costLog, Logged e) :
    totalCost costLog = aggregatedCost costLog := by
  induction costLog with
  | nil => simp [totalCost, aggregatedCost, tokensOf]
  | cons e costLog ih =>
    obtain ⟨prices, hlookup, hcost⟩ := (h e (by simp)).priced
    rw [aggregatedCost_cons costLog hlookup hcost,
      ← ih fun x hx => h x (List.mem_cons_of_mem _ hx), totalCost, List.map_cons, List.sum_cons,
      ← totalCost]

/-- The printed cost table balances to the last digit. -/
theorem costTable_balanced {costLog : List CostEntry} (h : ∀ e ∈ costLog, Logged e) :
    Balanced costLog := by
  have hplain : ∀ s ∈ agentNodes ++ modelCosts.map Prod.fst,
      s.OneLine ∧ ∀ c ∈ s, c ≠ .scalar '|' ∧ c ≠ .scalar '\\' := by
    simp only [agentNodes, modelCosts, List.map_cons, List.map_nil]
    decide +kernel
  have hnode : ∀ e ∈ costLog, e.node ∈ agentNodes ++ modelCosts.map Prod.fst := fun e he =>
    List.mem_append_left _ (h e he).node
  have hmodel : ∀ e ∈ costLog, e.model ∈ agentNodes ++ modelCosts.map Prod.fst := fun e he =>
    List.mem_append_right _ (h e he).model_mem
  have hexact : ∀ e ∈ costLog, decimalValue (formatFixed 6 e.costUsd) = e.costUsd := by
    intro e he
    obtain ⟨n, hn⟩ := (h e he).millionths
    exact decimalValue_formatFixed (by decide) hn
  have htotal : decimalValue (formatFixed 6 (totalCost costLog)) = totalCost costLog := by
    obtain ⟨n, hn⟩ := totalCost_millionths fun e he => (h e he).millionths
    exact decimalValue_formatFixed (by decide) hn
  exact {
    lines := splitlines_formatCostTable fun e he =>
      oneLine_formatCostRow (hplain _ (hnode e he)).1 (hplain _ (hmodel e he)).1
    rows := fun e he => cells_formatCostRow (CellText.of_plain (hplain _ (hnode e he)).2)
      (CellText.of_plain (hplain _ (hmodel e he)).2)
    figures := hexact
    total := by rw [htotal, List.map_congr_left hexact, totalCost]
    aggregated := htotal.trans (totalCost_eq_aggregatedCost h) }

omit [UnicodeData] in
/-- The entry of a summarizer call of 1234 and 56 tokens. -/
def haikuEntry : CostEntry where
  node := lit "summarizer"
  model := lit "claude-haiku-4-5-20251001"
  inputTokens := 1234
  outputTokens := 56
  costUsd := (1234 * 1 + 56 * 5) / tokensPerUnit
  latencyMs := 7

omit [UnicodeData] in
theorem costTable_balanced_haiku : Balanced [haikuEntry, haikuEntry] := by
  have hlookup : modelCosts.lookup haikuEntry.model = some ⟨1, 5⟩ := rfl
  have hcost := (@calculateCost_eq_ok_iff .basicLatin _ 1234 56 haikuEntry.costUsd).mpr
    ⟨_, hlookup, by simp [haikuEntry]⟩
  have hlogged := @Logged.mk .basicLatin haikuEntry (by decide)
    ((@logLlmCall_eq_ok_iff .basicLatin _ _ _ _ _ _).mpr ⟨_, hcost, rfl⟩)
  exact @costTable_balanced .basicLatin [haikuEntry, haikuEntry] (by simp [hlogged])

end ResearchSynthesis
