-- SUMMARY: Runs that merge the updates of a superstep in the order of its tasks, whenever they finished, and what such runs come to.
import ResearchSynthesis.StateGraph.Interpreter

/-!
# Merging in the order of the tasks

`Step` merges the updates of a superstep in the order in which its tasks
finished. Here they are merged in the order in which the tasks were created,
which for the tasks of `Send`s is the order of the `Send`s. Such runs are runs,
and they are the interpreter's with every list left as it is, except that any of
the tasks that raise can be the first to do so.
-/

namespace StateGraph

variable {κ ν σ π υ ε : Type} [DecidableEq κ] [DecidableEq ν]
variable (G : Graph ν σ π υ ε) (S : Schema κ σ υ) (limit : Nat)

/-- A whole superstep, its updates merged in the order of its tasks. -/
inductive OrderedSuperstep : Config ν σ π υ → Config ν σ π υ → Prop where
  | mk {b : Config ν σ π υ} {ws : List (Task ν π × υ)} {s : σ} {ts : List (Task ν π)}
      (hlimit : b.supersteps < limit)
      (hbarrier : b.writes = [])
      (hne : ws ≠ [])
      (htasks : ws.map (·.1) = b.pending)
      (hexec : ∀ w ∈ ws, G.exec w.1.node b.state w.1.arg = .ok w.2)
      (hmerge : S.applyWrites b.state (ws.map (·.2)) = some s)
      (hnext : G.next (ws.map (·.1.node)) s = .ok ts) :
      OrderedSuperstep b (.barrier s ts (b.executed ++ ws.map (·.1)) (b.supersteps + 1))

/-- The run has come to `c`: whole supersteps, merged in order, and then a part of
    one, whose tasks finish in any order. -/
inductive OrderedReaches (b c : Config ν σ π υ) : Prop where
  | mk {b' : Config ν σ π υ} (hrun : Relation.ReflTransGen (OrderedSuperstep G S limit) b b')
      (hreach : Reaches G S limit b' c) (hsupersteps : c.supersteps = b'.supersteps)

/-- What these runs come to. -/
inductive ComesToInOrder (c₀ : Config ν σ π υ) : Except (Failure ε) σ → Prop where
  | done {c : Config ν σ π υ} (hreach : OrderedReaches G S limit c₀ c) (hdone : c.Done)
      (hlimit : c.supersteps < limit) : ComesToInOrder c₀ (.ok c.state)
  | fails {c : Config ν σ π υ} {e : Failure ε} (hreach : OrderedReaches G S limit c₀ c)
      (hfails : Fails G S limit c e) : ComesToInOrder c₀ (.error e)

variable {G S limit}

/-! ## They are runs -/

theorem OrderedSuperstep.superstep {b b' : Config ν σ π υ} (h : OrderedSuperstep G S limit b b') :
    Superstep G S limit b b' := by
  cases h with
  | mk hlimit hbarrier hne htasks hexec hmerge hnext =>
    exact .mk hlimit hbarrier hne (.of_eq htasks) hexec hmerge hnext

theorem OrderedReaches.refl (c : Config ν σ π υ) : OrderedReaches G S limit c c :=
  .mk .refl .refl rfl

theorem OrderedReaches.head {b b' c : Config ν σ π υ} (h : OrderedSuperstep G S limit b b')
    (hreach : OrderedReaches G S limit b' c) : OrderedReaches G S limit b c := by
  obtain ⟨hrun, hreach, hsupersteps⟩ := hreach
  exact .mk (hrun.head h) hreach hsupersteps

theorem OrderedReaches.reaches {b c : Config ν σ π υ} (h : OrderedReaches G S limit b c) :
    Reaches G S limit b c := by
  obtain ⟨hrun, hreach, -⟩ := h
  have hsupersteps := Relation.ReflTransGen.mono (fun _ _ => OrderedSuperstep.superstep) _ _ hrun
  exact (reaches_of_supersteps G S limit hsupersteps).trans hreach

theorem ComesToInOrder.head {b b' : Config ν σ π υ} {r : Except (Failure ε) σ}
    (h : OrderedSuperstep G S limit b b') (hr : ComesToInOrder G S limit b' r) :
    ComesToInOrder G S limit b r := by
  cases hr with
  | done hreach hdone hlimit => exact .done (hreach.head h) hdone hlimit
  | fails hreach hfails => exact .fails (hreach.head h) hfails

/-! ## Where they end -/

/-- Supersteps are counted. -/
theorem supersteps_of_run {b b' : Config ν σ π υ}
    (h : Relation.ReflTransGen (Superstep G S limit) b b') :
    b' = b ∨ b.supersteps < b'.supersteps := by
  induction h with
  | refl => exact .inl rfl
  | tail _ hsuper ih =>
    obtain ⟨-, hcount, -⟩ := hsuper.interpret
    refine .inr ?_
    rcases ih with rfl | hlt <;> omega

/-- A run that is over has merged every superstep in order. -/
theorem OrderedReaches.run_of_done {b c : Config ν σ π υ} (hb : b.writes = [])
    (h : OrderedReaches G S limit b c) (hdone : c.Done) :
    Relation.ReflTransGen (OrderedSuperstep G S limit) b c := by
  obtain ⟨hrun, hreach, hsupersteps⟩ := h
  rename_i b'
  have hb' : b'.writes = [] := by
    rcases hrun.cases_tail with rfl | ⟨_, -, hlast⟩
    · exact hb
    · exact hlast.superstep.interpret.2.2.1
  have hsame : c = b' := by
    rcases supersteps_of_run (hreach.superstep_of_done G S limit hb' hdone) with heq | hlt
    · exact heq
    · omega
  exact hsame ▸ hrun

theorem OrderedSuperstep.interpret {b b' : Config ν σ π υ} (h : OrderedSuperstep G S limit b b')
    (os : List (Order (Task ν π))) :
    interpret G S (.keep :: os) b.state b.pending = interpret G S os b'.state b'.pending := by
  have hpending := h.superstep.pending_ne_nil
  cases h with
  | @mk ws s ts _ _ _ htasks hexec hmerge hnext =>
    have hstep : StateGraph.superstep G S b.state b.pending = .ok (s, ts) :=
      superstep_eq_ok_iff.mpr ⟨ws, htasks, hexec, hmerge, hnext⟩
    have hkeep : Order.keep.arrange b.pending = b.pending := rfl
    rw [interpret_cons hpending, hkeep, hstep]
    rfl

theorem interpret_keep_of_run {b c : Config ν σ π υ}
    (h : Relation.ReflTransGen (OrderedSuperstep G S limit) b c) (hdone : c.Done)
    (hlimit : c.supersteps < limit) :
    interpret G S (List.replicate (limit - b.supersteps) .keep) b.state b.pending = .ok c.state := by
  induction h using Relation.ReflTransGen.head_induction_on with
  | refl =>
    obtain ⟨n, hn⟩ : ∃ n, limit - c.supersteps = n + 1 := ⟨limit - c.supersteps - 1, by omega⟩
    rw [hn, List.replicate_succ, hdone.1, interpret_nil]
  | @head b b' hstep _ ih =>
    obtain ⟨hlt, hcount, -⟩ := hstep.superstep.interpret
    have hn : limit - b.supersteps = limit - b'.supersteps + 1 := by omega
    rw [hn, List.replicate_succ, hstep.interpret, ih]

/-! ## From the interpreter -/

/-- A superstep that the interpreter completes in the order of its tasks. -/
theorem exists_orderedSuperstep {b : Config ν σ π υ} (hb : b.writes = [])
    (hlimit : b.supersteps < limit) (hpending : b.pending ≠ []) {s : σ} {ts : List (Task ν π)}
    (h : superstep G S b.state b.pending = .ok (s, ts)) :
    ∃ executed, OrderedSuperstep G S limit b (.barrier s ts executed (b.supersteps + 1)) := by
  obtain ⟨ws, htasks, hexec, hmerge, hnext⟩ := superstep_eq_ok_iff.mp h
  refine ⟨_, .mk hlimit hb ?_ htasks hexec hmerge hnext⟩
  rintro rfl
  exact hpending htasks.symm

theorem comesToInOrder_of_superstep_error {b : Config ν σ π υ} (hb : b.writes = [])
    (hlimit : b.supersteps < limit) (hpending : b.pending ≠ []) {e : Failure ε}
    (h : superstep G S b.state b.pending = .error e) : ComesToInOrder G S limit b (.error e) := by
  rcases superstep_error_cases h with ⟨t, ht, e', hexec, rfl⟩ | ⟨ws, htasks, hexec, hbad⟩
  · exact .fails (.refl b) (.node hlimit ht hexec)
  · have hws : ws ≠ [] := by
      rintro rfl
      exact hpending htasks.symm
    obtain ⟨rest, hrest, hreach⟩ :=
      reaches_finish G S limit hlimit ws [] [] (by simp [htasks]) hexec
    obtain rfl : rest = [] := by simpa using hrest
    have hstart : { b with writes := [] } = b := by cases b; simp_all
    rw [hstart] at hreach
    refine .fails (.mk .refl hreach rfl) ?_
    rcases hbad with ⟨hmerge, rfl⟩ | ⟨s, e', hmerge, hnext, rfl⟩
    · exact .conflict hlimit rfl hws hmerge
    · exact .edge hlimit rfl hws hmerge hnext

theorem comesToInOrder_interpret {b : Config ν σ π υ} (hb : b.writes = []) :
    ComesToInOrder G S limit b
      (interpret G S (List.replicate (limit - b.supersteps) .keep) b.state b.pending) := by
  generalize hn : limit - b.supersteps = n
  induction n generalizing b with
  | zero => exact .fails (.refl b) (.limit (by omega))
  | succ n ih =>
    have hlimit : b.supersteps < limit := by omega
    rw [List.replicate_succ]
    by_cases hpending : b.pending = []
    · rw [hpending, interpret_nil]
      exact .done (.refl b) ⟨hpending, hb⟩ hlimit
    · have hkeep : Order.keep.arrange b.pending = b.pending := rfl
      rw [interpret_cons hpending, hkeep]
      cases hstep : superstep G S b.state b.pending with
      | error e => exact comesToInOrder_of_superstep_error hb hlimit hpending hstep
      | ok next =>
        obtain ⟨executed, hsuper⟩ := exists_orderedSuperstep hb hlimit hpending hstep
        refine .head hsuper (ih rfl ?_)
        simp only [Config.barrier]
        omega

/-- Runs that merge in the order of the tasks end in one state at most, the one
    that the interpreter comes to when it leaves every list as it is. -/
theorem comesToInOrder_ok_iff {b : Config ν σ π υ} (hb : b.writes = []) {s : σ} :
    ComesToInOrder G S limit b (.ok s) ↔
      interpret G S (List.replicate (limit - b.supersteps) .keep) b.state b.pending = .ok s := by
  refine ⟨fun h => ?_, fun h => h ▸ comesToInOrder_interpret hb⟩
  cases h with
  | done hreach hdone hlimit =>
    exact interpret_keep_of_run (hreach.run_of_done hb hdone) hdone hlimit

end StateGraph
