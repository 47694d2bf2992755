-- SUMMARY: State graphs run in supersteps: schema with reducers, edges, `Send` fan-out, and the step relation of a run.
import Mathlib.Logic.Relation
import Mathlib.Data.List.Dedup

/-!
# State graphs

A graph of nodes over one shared state, run in supersteps. All tasks of a
superstep read the state as it was when the superstep began; each returns a
partial update, and the updates are merged once every task has finished, in
whatever order. A key without a reducer may be written by one task of a
superstep only. The edges out of the nodes that ran give the next tasks: a
static edge starts its target once, a conditional edge starts one task per
`Send`, with the payload of the `Send` in place of the shared state.

The step relation interleaves the tasks of a superstep one by one. `Superstep`
in `StateGraph/Run.lean` is the same run seen a superstep at a time.
-/

namespace StateGraph

variable {κ ν σ π υ ε : Type}

/-! ## Shared state -/

/-- How partial updates write the shared state. -/
structure Schema (κ σ υ : Type) where
  /-- The keys an update carries. -/
  keys : υ → List κ
  /-- Whether concurrent writes to a key are combined. -/
  hasReducer : κ → Bool
  merge : σ → υ → σ

namespace Schema

variable [DecidableEq κ] (S : Schema κ σ υ)

/-- The writes to keys without a reducer. -/
def plainWrites (us : List υ) : List κ := (us.flatMap S.keys).filter (!S.hasReducer ·)

/-- Merge the updates of one superstep. `none` when two of them write one plain
    key (`InvalidUpdateError`). -/
def applyWrites (s : σ) (us : List υ) : Option σ :=
  if (S.plainWrites us).Nodup then some (us.foldl S.merge s) else none

theorem applyWrites_eq_some_iff {s s' : σ} {us : List υ} :
    S.applyWrites s us = some s' ↔ (S.plainWrites us).Nodup ∧ us.foldl S.merge s = s' := by
  unfold applyWrites
  split <;> simp_all

end Schema

/-! ## Graphs -/

inductive Endpoint (ν : Type) where
  | START
  | node (n : ν)
  | END

/-- One task for `node`, which receives `arg` in place of the shared state. -/
structure Send (ν π : Type) where
  node : ν
  arg : π

/-- A task of a superstep: a node, with a payload if a `Send` started it. -/
structure Task (ν π : Type) where
  node : ν
  arg : Option π

def Send.task (s : Send ν π) : Task ν π := ⟨s.node, some s.arg⟩

structure Graph (ν σ π υ ε : Type) where
  /-- What a node returns for the shared state and the payload of its task. -/
  exec : ν → σ → Option π → Except ε υ
  edges : List (Endpoint ν × Endpoint ν)
  conditionalEdges : List (ν × (σ → Except ε (List (Send ν π))))

namespace Graph

variable [DecidableEq ν] (G : Graph ν σ π υ ε)

/-- The nodes that `START` leads to. -/
def entry : List (Task ν π) :=
  G.edges.filterMap fun
    | (.START, .node n) => some ⟨n, none⟩
    | _ => none

/-- The targets of the static edges out of the nodes that ran, each once. -/
def targets (ran : List ν) : List ν :=
  (G.edges.filterMap fun
    | (.node m, .node n) => if m ∈ ran then some n else none
    | _ => none).dedup

/-- The tasks after a superstep that ran the nodes `ran` and left state `s`. -/
def next (ran : List ν) (s : σ) : Except ε (List (Task ν π)) := do
  let sends ← (G.conditionalEdges.filter (·.1 ∈ ran)).mapM fun e => e.2 s
  return sends.flatten.map Send.task ++ (G.targets ran).map (⟨·, none⟩)

end Graph

/-! ## Runs -/

/-- A point in a run: the state the current superstep began with, the tasks of
    it that are still to finish, the updates of those that have finished, and
    what ran in the supersteps before. -/
structure Config (ν σ π υ : Type) where
  state : σ
  pending : List (Task ν π)
  writes : List (Task ν π × υ)
  executed : List (Task ν π)
  supersteps : Nat

/-- The start of a superstep. -/
def Config.barrier (s : σ) (ts : List (Task ν π)) (executed : List (Task ν π)) (n : Nat) :
    Config ν σ π υ :=
  { state := s, pending := ts, writes := [], executed := executed, supersteps := n }

/-- The run is over: no task is left and nothing waits to be merged. -/
def Config.Done (c : Config ν σ π υ) : Prop := c.pending = [] ∧ c.writes = []

section
variable [DecidableEq κ] [DecidableEq ν] (G : Graph ν σ π υ ε) (S : Schema κ σ υ) (limit : Nat)

/-- A run begins with the nodes after `START`. -/
def init (s : σ) : Config ν σ π υ := .barrier s G.entry [] 0

/-- One step of a run: some pending task finishes, or, all having finished, the
    updates are merged and the next superstep begins. The limit is checked before
    the tasks are looked at, so a run that is over returns only below it. -/
inductive Step : Config ν σ π υ → Config ν σ π υ → Prop where
  | finish {c : Config ν σ π υ} {before after : List (Task ν π)} {t : Task ν π} {u : υ}
      (hlimit : c.supersteps < limit)
      (hpending : c.pending = before ++ t :: after)
      (hexec : G.exec t.node c.state t.arg = .ok u) :
      Step c { c with pending := before ++ after, writes := c.writes ++ [(t, u)] }
  | barrier {c : Config ν σ π υ} {s : σ} {ts : List (Task ν π)}
      (hlimit : c.supersteps < limit)
      (hpending : c.pending = [])
      (hwrites : c.writes ≠ [])
      (hmerge : S.applyWrites c.state (c.writes.map (·.2)) = some s)
      (hnext : G.next (c.writes.map (·.1.node)) s = .ok ts) :
      Step c (.barrier s ts (c.executed ++ c.writes.map (·.1)) (c.supersteps + 1))

/-- What a run can raise. -/
inductive Failure (ε : Type) where
  | raised (e : ε)
  | invalidUpdate
  | recursionLimit

/-- The run raises at this point. -/
inductive Fails : Config ν σ π υ → Failure ε → Prop where
  | limit {c : Config ν σ π υ} (hlimit : limit ≤ c.supersteps) : Fails c .recursionLimit
  | node {c : Config ν σ π υ} {t : Task ν π} {e : ε} (hlimit : c.supersteps < limit)
      (ht : t ∈ c.pending) (hexec : G.exec t.node c.state t.arg = .error e) : Fails c (.raised e)
  | conflict {c : Config ν σ π υ} (hlimit : c.supersteps < limit) (hpending : c.pending = [])
      (hwrites : c.writes ≠ [])
      (hmerge : S.applyWrites c.state (c.writes.map (·.2)) = none) : Fails c .invalidUpdate
  | edge {c : Config ν σ π υ} {s : σ} {e : ε} (hlimit : c.supersteps < limit)
      (hpending : c.pending = []) (hwrites : c.writes ≠ [])
      (hmerge : S.applyWrites c.state (c.writes.map (·.2)) = some s)
      (hnext : G.next (c.writes.map (·.1.node)) s = .error e) : Fails c (.raised e)

/-- `c'` is reached from `c` by some interleaving. -/
abbrev Reaches : Config ν σ π υ → Config ν σ π υ → Prop := Relation.ReflTransGen (Step G S limit)

/-- A run stops only at its end, below the limit, or where it raises. -/
theorem progress (c : Config ν σ π υ) :
    (c.Done ∧ c.supersteps < limit) ∨ (∃ e, Fails G S limit c e) ∨ ∃ c', Step G S limit c c' := by
  by_cases hlimit : c.supersteps < limit
  · by_cases hdone : c.Done
    · exact .inl ⟨hdone, hlimit⟩
    right
    cases hp : c.pending with
    | cons t ts =>
      cases he : G.exec t.node c.state t.arg with
      | error e => exact .inl ⟨_, .node hlimit (by rw [hp]; exact List.mem_cons_self) he⟩
      | ok u => exact .inr ⟨_, .finish hlimit (show c.pending = [] ++ t :: ts from hp) he⟩
    | nil =>
      have hw : c.writes ≠ [] := fun hw => hdone ⟨hp, hw⟩
      cases hm : S.applyWrites c.state (c.writes.map (·.2)) with
      | none => exact .inl ⟨_, .conflict hlimit hp hw hm⟩
      | some s =>
        cases hn : G.next (c.writes.map (·.1.node)) s with
        | error e => exact .inl ⟨_, .edge hlimit hp hw hm hn⟩
        | ok ts => exact .inr ⟨_, .barrier hlimit hp hw hm hn⟩
  · exact .inr (.inl ⟨_, .limit (Nat.not_lt.mp hlimit)⟩)

/-- The recursion limit bounds every run. -/
theorem step_terminates (c : Config ν σ π υ) : Acc (fun c' c => Step G S limit c c') c := by
  have hwf : WellFounded (fun c' c : Config ν σ π υ =>
      Prod.Lex (· < ·) (· < ·) (limit - c'.supersteps, c'.pending.length)
        (limit - c.supersteps, c.pending.length)) :=
    InvImage.wf _ (Prod.lex Nat.lt_wfRel Nat.lt_wfRel).wf
  refine Subrelation.accessible ?_ (hwf.apply c)
  intro c' c hstep
  cases hstep with
  | finish hlimit hpending hexec =>
    apply Prod.Lex.right
    simp only [hpending, List.length_append, List.length_cons]
    omega
  | barrier hlimit =>
    apply Prod.Lex.left
    simp only [Config.barrier]
    omega

/-- Where nothing raises, every run can be continued to its end. -/
theorem reaches_done {c : Config ν σ π υ}
    (hsafe : ∀ c', Reaches G S limit c c' → ∀ e, ¬ Fails G S limit c' e) :
    ∃ c', Reaches G S limit c c' ∧ c'.Done := by
  induction step_terminates G S limit c with
  | intro c _ ih =>
    rcases progress G S limit c with ⟨hdone, -⟩ | ⟨e, he⟩ | ⟨c', hstep⟩
    · exact ⟨c, .refl, hdone⟩
    · exact absurd he (hsafe c .refl e)
    · obtain ⟨c'', hreach, hdone⟩ := ih c' hstep fun d hd => hsafe d (hd.head hstep)
      exact ⟨c'', hreach.head hstep, hdone⟩

end

end StateGraph
