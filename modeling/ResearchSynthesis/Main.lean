-- SUMMARY: `main.py`: startup validation, the report's path, and one saved and costed run.
import ResearchSynthesis.Observability
import ResearchSynthesis.Report
import ResearchSynthesis.Python.DateTime

/-! # CLI entrypoint -/

namespace ResearchSynthesis
open Python

variable [UnicodeData]

def recursionLimit : Nat := 25

def slugMax : Nat := 60

/-- Fail fast if a configured model is not in the pricing table. -/
def validateModels (settings : Settings) : Except Exn Unit :=
  let unpriced := [settings.supervisorModel, settings.workerModel].filter fun m =>
    (modelCosts.lookup m).isNone
  if unpriced ≠ [] then
    .error ⟨.valueError,
      lit "Model(s) not in MODEL_COSTS pricing table: " ++
        (Json.list (unpriced.map .string)).repr ++ lit ". " ++
        lit "Add pricing in observability.MODEL_COSTS or fix the model IDs in config."⟩
  else .ok ()

/-! ## The report's path -/

omit [UnicodeData] in
/-- `[a-z0-9]` -/
def isSlugChar : CodePoint → Bool
  | .scalar c => c.isDigit || c.isLower
  | .surrogate _ => false

omit [UnicodeData] in
/-- `re.sub(r"[^a-z0-9]+", "-", s)`; `inRun` says that the dash of the current
    run of other characters has been written. -/
def dashRuns (inRun : Bool) : Str → Str
  | [] => []
  | c :: s =>
    if isSlugChar c then c :: dashRuns false s
    else if inRun then dashRuns true s
    else .scalar '-' :: dashRuns true s

/-- Reduce a question to a filesystem-safe slug. -/
def slugify (text : Str) : Str :=
  let slug := (dashRuns false text.strip.lower).stripBy (· = .scalar '-')
  let cut := Str.stripBy (· = .scalar '-') (slug.take slugMax)
  if cut ≠ [] then cut else lit "report"

/-- The file name of a report. -/
def reportName (question : Str) (now : DateTime) : Str :=
  now.stamp ++ lit "-" ++ slugify question ++ lit ".md"

/-- Timestamped, slugified report path, which must stay inside `outputsDir`. -/
def buildOutputPath (question : Str) (now : DateTime) (outputsDir : Path) (disk : Disk Exn) :
    Except Exn Path := do
  let base ← disk.resolve outputsDir
  let candidate ← disk.resolve (base.child (reportName question now))
  if !candidate.isRelativeTo base then
    throw ⟨.valueError, lit "refusing to write outside outputs dir: " ++ candidate.str⟩
  else return candidate

/-! ## One run -/

/-- One call of `run_research`: its arguments, the clock, and the answers of
    the operating system to the two file operations. -/
structure ResearchCall where
  question : Str
  settings : Settings
  /-- The graph: what `ainvoke` does with a question and a recursion limit. -/
  ainvoke : Str → Nat → Except Exn ResearchState
  now : DateTime
  latencyS : ℚ
  reportFile : FileAnswer Exn
  costFile : FileAnswer Exn

omit [UnicodeData] in
/-- The report that is saved and printed. -/
def savedReport (final : ResearchState) : Str := final.finalReport.getD []

omit [UnicodeData] in
/-- The arguments that `run_research` passes to `write_cost_row`. -/
def ResearchCall.costRow (call : ResearchCall) (final : ResearchState) : CostRow :=
  let subQuestions := final.subQuestions.getD []
  let researchBranches := min subQuestions.length call.settings.maxSubQuestions
  { date := call.now.date
    question := call.question
    subQuestionCount := subQuestions.length
    totalCostUsd := (final.costLog.map (·.costUsd)).sum
    latencyS := call.latencyS
    nodeCount := 3 + researchBranches }

/-- Run the graph, save the report, append one cost row. `costDoc` is the file
    that the cost document's path leads to. -/
def runResearch (call : ResearchCall) (outputsDir costDoc : Path) (disk : Disk Exn) :
    Except Exn (Path × ResearchState) × Disk Exn :=
  match call.ainvoke call.question recursionLimit with
  | .error e => (.error e, disk)
  | .ok final =>
    match buildOutputPath call.question call.now outputsDir disk with
    | .error e => (.error e, disk)
    | .ok path =>
      match disk.writeText path (savedReport final) unicodeEncodeError call.reportFile with
      | (.error e, disk) => (.error e, disk)
      | (.ok (), disk) =>
        match writeCostRow (call.costRow final) costDoc call.costFile disk with
        | (.error e, disk) => (.error e, disk)
        | (.ok (), disk) => (.ok (path, final), disk)

end ResearchSynthesis
