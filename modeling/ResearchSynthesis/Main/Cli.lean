-- SUMMARY: `main`: the question from the arguments, one run with Langfuse around it, the exit code and the printed report.
import ResearchSynthesis.Graph.Completion
import ResearchSynthesis.Main
import ResearchSynthesis.StateGraph.Agreement

/-!
# The command line

`main` makes the Langfuse client inside its `try` block and flushes it in the
`finally` clause. What the graph comes to is not determined by its world: the
branches finish in any order, so `ainvoke` is a relation and `main` takes one of
the behaviours it allows. Its last step prints the report; `main` is stated for a
standard output that takes it, and `MainOutcome.on` for any other. Writing to
standard error is assumed to succeed.
-/

namespace ResearchSynthesis
open Python StateGraph

variable [UnicodeData]

/-! ## Running the compiled graph -/

/-- What `ainvoke` can come to: the state at the end of a run that is over below
    the limit, or what a run raises. The class of an error that the graph raises
    itself is left open. -/
inductive World.Ainvokes (w : World) (question : Str) (limit : Nat) :
    Except Exn ResearchState → Prop where
  | returns {c : Config Node ResearchState Payload Update}
      (hreach : Reaches (buildGraph w) ResearchState.schema limit
        (init (buildGraph w) { question := some question }) c)
      (hdone : c.Done) (hlimit : c.supersteps < limit) : Ainvokes w question limit (.ok c.state)
  | raises {c : Config Node ResearchState Payload Update} {failure : Failure Exn} {e : Exn}
      (hreach : Reaches (buildGraph w) ResearchState.schema limit
        (init (buildGraph w) { question := some question }) c)
      (hfails : Fails (buildGraph w) ResearchState.schema limit c failure)
      (he : ∀ raised, failure = .raised raised → e = raised) :
      Ainvokes w question limit (.error e)

omit [UnicodeData] in
/-- A compiled graph, as the outcomes of its `ainvoke`. -/
abbrev Ainvoke := Str → Nat → Except Exn ResearchState

/-- The graph does nothing that its world does not allow. -/
def World.Behaves (w : World) (graph : Ainvoke) : Prop :=
  ∀ question limit, w.Ainvokes question limit (graph question limit)

/-! ## One call of `main` -/

omit [UnicodeData] in
/-- The arguments of `main`, and what it finds outside. -/
structure Invocation where
  argv : List Str
  /-- What `get_settings` returns. -/
  settings : Except Exn Settings
  /-- What the Langfuse constructor does where `main` calls it. -/
  langfuse : Langfuse
  /-- What the client's `flush` does. -/
  flush : Except Exn Unit
  /-- What creating the outputs directory does. -/
  mkdir : Except Exn Unit
  outputsDir : Path
  costDoc : Path
  now : DateTime
  latencyS : ℚ
  reportFile : FileAnswer Exn
  costFile : FileAnswer Exn
  decomposeCall : LlmCall (IncludeRaw DecomposedQuestion)
  branch : Nat → Branch
  assembleCall : LlmCall (IncludeRaw AssembledReport)

omit [UnicodeData] in
/-- What a call of `main` comes to: its exit code, or what it raises; the report,
    if it is printed; and the disk. -/
structure MainOutcome where
  exit : Except Exn Nat
  printed : Option Str
  disk : Disk Exn

omit [UnicodeData] in
/-- Join all arguments into the question. -/
def questionFromArgv (argv : List Str) : Str := (Str.join (lit " ") (argv.drop 1)).strip

namespace Invocation

omit [UnicodeData] in
/-- The world of the graph's nodes, which read the same settings. -/
def world (i : Invocation) (settings : Settings) : World where
  settings
  decomposeCall := i.decomposeCall
  branch := i.branch
  assembleCall := i.assembleCall

omit [UnicodeData] in
def researchCall (i : Invocation) (settings : Settings) (graph : Ainvoke) : ResearchCall where
  question := questionFromArgv i.argv
  settings
  ainvoke := graph
  now := i.now
  latencyS := i.latencyS
  reportFile := i.reportFile
  costFile := i.costFile

/-- The `try` block after the Langfuse client has been made. -/
def research (i : Invocation) (settings : Settings) (graph : Ainvoke) (disk : Disk Exn) :
    Except Exn (Path × ResearchState) × Disk Exn :=
  match i.mkdir with
  | .error e => (.error e, disk)
  | .ok () => runResearch (i.researchCall settings graph) i.outputsDir i.costDoc disk

/-- The `try` block: what it raises or returns, the Langfuse client if it has
    been made by then, and the disk. -/
def attempt (i : Invocation) (graph : Ainvoke) (disk : Disk Exn) :
    Option Unit × Except Exn (Path × ResearchState) × Disk Exn :=
  match i.settings with
  | .error e => (none, .error e, disk)
  | .ok settings =>
    match validateModels settings with
    | .error e => (none, .error e, disk)
    | .ok () =>
      match getLangfuseClient settings i.langfuse with
      | .error e => (none, .error e, disk)
      | .ok client => (client, i.research settings graph disk)

omit [UnicodeData] in
/-- The `finally` clause, and what comes after it. What `flush` raises replaces
    what the block returned. -/
def finish (i : Invocation) (client : Option Unit)
    (result : Except Exn (Path × ResearchState) × Disk Exn) : MainOutcome :=
  match if client.isSome then i.flush else .ok () with
  | .error e => { exit := .error e, printed := none, disk := result.2 }
  | .ok () =>
    match result.1 with
    | .error _ => { exit := .ok 1, printed := none, disk := result.2 }
    | .ok (_, final) => { exit := .ok 0, printed := some (savedReport final), disk := result.2 }

end Invocation

/-- Run one research query and print the report, which standard output takes. -/
def main (i : Invocation) (graph : Ainvoke) (disk : Disk Exn) : MainOutcome :=
  if questionFromArgv i.argv = [] then { exit := .ok 2, printed := none, disk }
  else
    let attempted := i.attempt graph disk
    i.finish attempted.1 attempted.2

/-- What a call of `main` can come to, over every behaviour of the graph. -/
def Invocation.Outcomes (i : Invocation) (disk : Disk Exn) : Set MainOutcome :=
  {outcome | ∃ graph, (∀ settings, i.settings = .ok settings → (i.world settings).Behaves graph) ∧
    outcome = main i graph disk}

/-! ## Standard output -/

omit [UnicodeData] in
/-- What a standard output makes of an outcome: what `print` raises there leaves
    `main` as it is, after the report has been saved. -/
def MainOutcome.on (stdout : Str → Except Exn Unit) (o : MainOutcome) : MainOutcome :=
  match o.printed with
  | none => o
  | some report =>
    match stdout report with
    | .error e => { exit := .error e, printed := none, disk := o.disk }
    | .ok () => o

section
variable {stdout : Str → Except Exn Unit} {exit : Except Exn Nat} {report : Str} {disk : Disk Exn}

omit [UnicodeData] in
theorem MainOutcome.on_of_ok (h : stdout report = .ok ()) :
    (⟨exit, some report, disk⟩ : MainOutcome).on stdout = ⟨exit, some report, disk⟩ := by
  simp [MainOutcome.on, h]

omit [UnicodeData] in
theorem MainOutcome.on_of_error {e : Exn} (h : stdout report = .error e) :
    (⟨exit, some report, disk⟩ : MainOutcome).on stdout = ⟨.error e, none, disk⟩ := by
  simp [MainOutcome.on, h]

omit [UnicodeData] in
@[simp] theorem MainOutcome.disk_on (o : MainOutcome) : (o.on stdout).disk = o.disk := by
  unfold MainOutcome.on
  split
  · rfl
  · split <;> rfl

omit [UnicodeData] in
theorem MainOutcome.printed_of_on {o : MainOutcome} (h : (o.on stdout).printed = some report) :
    o.printed = some report := by
  unfold MainOutcome.on at h
  split at h
  · exact h
  · split at h
    · cases h
    · exact h

end

/-- What a call of `main` can come to where `stdout` may refuse the report. -/
def Invocation.OutcomesOn (i : Invocation) (stdout : Str → Except Exn Unit) (disk : Disk Exn) :
    Set MainOutcome :=
  MainOutcome.on stdout '' i.Outcomes disk

/-- A standard output that takes everything changes nothing. -/
theorem Invocation.outcomesOn_of_accepts (i : Invocation) {stdout : Str → Except Exn Unit}
    (h : ∀ report, stdout report = .ok ()) (disk : Disk Exn) :
    i.OutcomesOn stdout disk = i.Outcomes disk := by
  have hid : MainOutcome.on stdout = id := by
    funext o
    unfold MainOutcome.on
    split
    · rfl
    · rw [h]
      rfl
  rw [OutcomesOn, hid, Set.image_id]

/-! ## Behaviours of the graph -/

/-- A run of this graph is over after four supersteps, and returns where the limit
    leaves one more. -/
theorem ainvokes_of_done {w : World} {question : Str} {limit : Nat} (hlimit : 4 < limit)
    {c : Config Node ResearchState Payload Update}
    (hreach : Reaches (buildGraph w) ResearchState.schema limit
      (init (buildGraph w) { question := some question }) c) (hdone : c.Done) :
    w.Ainvokes question limit (.ok c.state) := by
  obtain ⟨-, -, -, hsupersteps⟩ := exists_completion hreach hdone
  exact .returns hreach hdone (hsupersteps ▸ hlimit)

theorem exists_ainvokes (w : World) (question : Str) (limit : Nat) :
    ∃ r, w.Ainvokes question limit r := by
  obtain ⟨c, hreach, ⟨hdone, hlimit⟩ | ⟨failure, hfails⟩⟩ := exists_outcome (buildGraph w)
    ResearchState.schema limit (init (buildGraph w) { question := some question })
  · exact ⟨_, .returns hreach hdone hlimit⟩
  · cases failure with
    | raised e => exact ⟨.error e, .raises hreach hfails fun _ h => Failure.raised.inj h⟩
    | invalidUpdate => exact ⟨.error ⟨.other, []⟩, .raises hreach hfails fun _ h => nomatch h⟩
    | recursionLimit => exact ⟨.error ⟨.other, []⟩, .raises hreach hfails fun _ h => nomatch h⟩

/-- Graphs that agree along their runs do the same. -/
theorem ainvokes_iff_of_agree {w w' : World} {question : Str} {limit : Nat}
    (h : Agree (buildGraph w) (buildGraph w') ResearchState.schema limit
      (init (buildGraph w) { question := some question })) {r : Except Exn ResearchState} :
    w'.Ainvokes question limit r ↔ w.Ainvokes question limit r := by
  constructor
  · intro hr
    cases hr with
    | returns hreach hdone hlimit => exact .returns (h.reaches_iff.mp hreach) hdone hlimit
    | raises hreach hfails he =>
      have hreach := h.reaches_iff.mp hreach
      exact .raises hreach ((h.fails_iff hreach).mp hfails) he
  · intro hr
    cases hr with
    | returns hreach hdone hlimit => exact .returns (h.reaches_iff.mpr hreach) hdone hlimit
    | raises hreach hfails he =>
      exact .raises (h.reaches_iff.mpr hreach) ((h.fails_iff hreach).mpr hfails) he

/-- Any outcome of one call is part of a behaviour. -/
theorem exists_behaves {w : World} {question : Str} {limit : Nat} {r : Except Exn ResearchState}
    (h : w.Ainvokes question limit r) :
    ∃ graph, w.Behaves graph ∧ graph question limit = r := by
  classical
  choose other hother using exists_ainvokes w
  refine ⟨fun q l => if q = question ∧ l = limit then r else other q l, fun q l => ?_, by simp⟩
  dsimp only
  split
  · next hcall =>
    rw [hcall.1, hcall.2]
    exact h
  · exact hother q l

end ResearchSynthesis
