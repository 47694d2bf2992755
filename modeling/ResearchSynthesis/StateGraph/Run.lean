-- SUMMARY: Runs of a state graph seen a superstep at a time, and the simulation that takes the interleaved runs to them.
import ResearchSynthesis.StateGraph.Graph

/-!
# Runs, a superstep at a time

The interleaved step relation refines a coarser one that runs a whole superstep
at once: all its tasks, their updates merged in some order. `Reaches.superstep`
takes a run to the supersteps it completed, and `reaches_iff_supersteps` says that
for a run that is over nothing is lost either way.
-/

namespace StateGraph

variable {κ ν σ π υ ε : Type} [DecidableEq κ] [DecidableEq ν]
variable (G : Graph ν σ π υ ε) (S : Schema κ σ υ) (limit : Nat)

/-- A whole superstep: every pending task returns an update, and the updates
    `ws`, in any order, are merged. -/
inductive Superstep : Config ν σ π υ → Config ν σ π υ → Prop where
  | mk {b : Config ν σ π υ} {ws : List (Task ν π × υ)} {s : σ} {ts : List (Task ν π)}
      (hlimit : b.supersteps < limit)
      (hbarrier : b.writes = [])
      (hne : ws ≠ [])
      (hperm : (ws.map (·.1)).Perm b.pending)
      (hexec : ∀ w ∈ ws, G.exec w.1.node b.state w.1.arg = .ok w.2)
      (hmerge : S.applyWrites b.state (ws.map (·.2)) = some s)
      (hnext : G.next (ws.map (·.1.node)) s = .ok ts) :
      Superstep b (.barrier s ts (b.executed ++ ws.map (·.1)) (b.supersteps + 1))

/-- The run is at `c`, part of the way through the superstep that began at `b`. -/
structure Within (b c : Config ν σ π υ) : Prop where
  barrier : b.writes = []
  state : c.state = b.state
  executed : c.executed = b.executed
  supersteps : c.supersteps = b.supersteps
  perm : (c.writes.map (·.1) ++ c.pending).Perm b.pending
  exec : ∀ w ∈ c.writes, G.exec w.1.node b.state w.1.arg = .ok w.2
  limit : c.writes ≠ [] → b.supersteps < limit

omit [DecidableEq ν] in
theorem Within.refl {b : Config ν σ π υ} (h : b.writes = []) : Within G limit b b where
  barrier := h
  state := rfl
  executed := rfl
  supersteps := rfl
  perm := by simp [h]
  exec := by simp [h]
  limit := fun hw => absurd h hw

omit [DecidableEq ν] in
/-- What is still pending was pending at the start. -/
theorem Within.mem_pending {b c : Config ν σ π υ} (h : Within G limit b c) {t : Task ν π}
    (ht : t ∈ c.pending) : t ∈ b.pending :=
  h.perm.mem_iff.mp (List.mem_append_right _ ht)

/-- A finished task keeps the run within its superstep; a merge completes it. -/
theorem Within.step {b c c' : Config ν σ π υ} (h : Within G limit b c)
    (hstep : Step G S limit c c') :
    Within G limit b c' ∨ Superstep G S limit b c' ∧ Within G limit c' c' := by
  cases hstep with
  | @finish before after t u hlimit hpending hexec =>
    refine .inl ⟨h.barrier, h.state, h.executed, h.supersteps, ?_, ?_, fun _ => h.supersteps ▸ hlimit⟩
    · have hperm := h.perm
      rw [hpending] at hperm
      simp only [List.map_append, List.map_cons, List.map_nil, List.append_assoc]
      have hmid : ([t] ++ (before ++ after)).Perm (before ++ t :: after) := by
        simpa using List.perm_middle.symm
      exact (hmid.append_left _).trans hperm
    · intro w hw
      rcases List.mem_append.mp hw with hw | hw
      · exact h.exec w hw
      · obtain rfl := List.mem_singleton.mp hw
        rw [← h.state]
        exact hexec
  | @barrier s ts hlimit hpending hwrites hmerge hnext =>
    have hperm : (c.writes.map (·.1)).Perm b.pending := by simpa [hpending] using h.perm
    rw [h.state] at hmerge
    rw [h.executed, h.supersteps]
    rw [h.supersteps] at hlimit
    exact .inr ⟨.mk hlimit h.barrier hwrites hperm h.exec hmerge hnext, .refl G limit rfl⟩

/-- A run is a sequence of supersteps followed by a part of one. -/
theorem Reaches.superstep {b c : Config ν σ π υ} (hb : b.writes = []) (h : Reaches G S limit b c) :
    ∃ b', Relation.ReflTransGen (Superstep G S limit) b b' ∧ Within G limit b' c := by
  induction h with
  | refl => exact ⟨b, .refl, .refl G limit hb⟩
  | tail _ hstep ih =>
    obtain ⟨b', hrun, hwithin⟩ := ih
    rcases hwithin.step G S limit hstep with hwithin | ⟨hsuper, hwithin⟩
    · exact ⟨b', hrun, hwithin⟩
    · exact ⟨_, hrun.tail hsuper, hwithin⟩

omit [DecidableEq ν] in
/-- A superstep that a run is over in has not begun. -/
theorem Within.eq_of_done {b c : Config ν σ π υ} (h : Within G limit b c) (hdone : c.Done) :
    c = b := by
  have hpending : b.pending = [] := by
    have hperm := h.perm
    rw [hdone.1, hdone.2] at hperm
    simpa using hperm.symm
  cases c; cases b
  simp only [Config.Done] at hdone hpending
  have := h.state
  have := h.executed
  have := h.supersteps
  have := h.barrier
  simp_all

/-- A run that is over consists of whole supersteps. -/
theorem Reaches.superstep_of_done {b c : Config ν σ π υ} (hb : b.writes = [])
    (h : Reaches G S limit b c) (hdone : c.Done) :
    Relation.ReflTransGen (Superstep G S limit) b c := by
  obtain ⟨b', hrun, hwithin⟩ := h.superstep G S limit hb
  exact hwithin.eq_of_done G limit hdone ▸ hrun

/-! ## Realizing a superstep -/

/-- The tasks of `ws` can finish one after another, in the order of `ws`. -/
theorem reaches_finish {c : Config ν σ π υ} (hlimit : c.supersteps < limit) :
    ∀ (ws : List (Task ν π × υ)) (rest : List (Task ν π)) (done : List (Task ν π × υ)),
      c.pending.Perm (ws.map (·.1) ++ rest) →
      (∀ w ∈ ws, G.exec w.1.node c.state w.1.arg = .ok w.2) →
      ∃ ts, ts.Perm rest ∧ Reaches G S limit { c with writes := done }
        { c with pending := ts, writes := done ++ ws } := by
  intro ws
  induction ws generalizing c with
  | nil =>
    intro rest done hperm _
    exact ⟨c.pending, by simpa using hperm, by simpa using .refl⟩
  | cons w ws ih =>
    intro rest done hperm hexec
    have hmem : w.1 ∈ c.pending := hperm.mem_iff.mpr (by simp)
    obtain ⟨before, after, hsplit⟩ := List.append_of_mem hmem
    have hrest : (before ++ after).Perm (ws.map (·.1) ++ rest) := by
      rw [hsplit] at hperm
      exact (List.perm_middle.symm.trans (by simpa using hperm)).cons_inv
    let c' : Config ν σ π υ := { c with writes := done }
    have hstep : Step G S limit c' { c' with pending := before ++ after, writes := done ++ [w] } :=
      .finish hlimit hsplit (hexec w (by simp))
    obtain ⟨ts, hts, hreach⟩ := @ih { c with pending := before ++ after } hlimit rest
      (done ++ [w]) hrest fun v hv => hexec v (List.mem_cons_of_mem _ hv)
    exact ⟨ts, hts, .head hstep (by simpa using hreach)⟩

/-- Every superstep, with its order of updates, is the end of an interleaving. -/
theorem Superstep.reaches {b b' : Config ν σ π υ} (h : Superstep G S limit b b') :
    Reaches G S limit b b' := by
  cases h with
  | @mk ws s ts hlimit hbarrier hne hperm hexec hmerge hnext =>
    obtain ⟨rest, hrest, hreach⟩ := reaches_finish G S limit hlimit ws [] []
      (by simpa using hperm.symm) hexec
    obtain rfl : rest = [] := by simpa using hrest
    have hb : { b with writes := [] } = b := by cases b; simp_all
    rw [hb] at hreach
    exact hreach.tail (.barrier hlimit rfl hne hmerge hnext)

theorem reaches_of_supersteps {b b' : Config ν σ π υ}
    (h : Relation.ReflTransGen (Superstep G S limit) b b') : Reaches G S limit b b' := by
  induction h with
  | refl => exact .refl
  | tail _ hstep ih => exact ih.trans (hstep.reaches G S limit)

/-- A run that is over and a sequence of supersteps are the same thing. -/
theorem reaches_iff_supersteps {b c : Config ν σ π υ} (hb : b.writes = []) (hdone : c.Done) :
    Reaches G S limit b c ↔ Relation.ReflTransGen (Superstep G S limit) b c :=
  ⟨fun h => h.superstep_of_done G S limit hb hdone, reaches_of_supersteps G S limit⟩

/-! ## Rules for runs -/

variable {G S limit}

/-- A superstep of one task. -/
theorem Superstep.of_task {s : σ} {t : Task ν π} {executed : List (Task ν π)} {n : Nat}
    {c : Config ν σ π υ} (h : Superstep G S limit (.barrier s [t] executed n) c) :
    ∃ u s' ts, G.exec t.node s t.arg = .ok u ∧ S.applyWrites s [u] = some s' ∧
      G.next [t.node] s' = .ok ts ∧ c = .barrier s' ts (executed ++ [t]) (n + 1) := by
  cases h with
  | @mk ws s' ts _ _ _ hperm hexec hmerge hnext =>
    obtain ⟨w, rfl, rfl⟩ : ∃ w, ws = [w] ∧ w.1 = t := by
      simpa [List.map_eq_singleton_iff] using List.perm_singleton.mp hperm
    exact ⟨w.2, s', ts, hexec w (by simp), hmerge, hnext, rfl⟩

/-- Nothing runs where no task is pending. -/
theorem Superstep.pending_ne_nil {b c : Config ν σ π υ} (h : Superstep G S limit b c) :
    b.pending ≠ [] := by
  cases h with
  | @mk ws s' ts _ _ hne hperm _ _ _ =>
    intro hpending
    rw [hpending, List.perm_nil, List.map_eq_nil_iff] at hperm
    exact hne hperm

theorem invariant_of_supersteps {b b' : Config ν σ π υ} {P : Config ν σ π υ → Prop}
    (hstep : ∀ {b b'}, P b → Superstep G S limit b b' → P b') (hP : P b)
    (h : Relation.ReflTransGen (Superstep G S limit) b b') : P b' := by
  induction h with
  | refl => exact hP
  | tail _ hsuper ih => exact hstep ih hsuper

/-- An invariant of supersteps holds where the superstep of any reachable point
    began. -/
theorem Reaches.within_of_invariant {b c : Config ν σ π υ} {P : Config ν σ π υ → Prop}
    (hstep : ∀ {b b'}, P b → Superstep G S limit b b' → P b') (hb : b.writes = []) (hP : P b)
    (h : Reaches G S limit b c) : ∃ b', P b' ∧ Within G limit b' c := by
  obtain ⟨b', hrun, hwithin⟩ := h.superstep G S limit hb
  exact ⟨b', invariant_of_supersteps hstep hP hrun, hwithin⟩

/-- It holds of the end of a run. -/
theorem Reaches.invariant_of_done {b c : Config ν σ π υ} {P : Config ν σ π υ → Prop}
    (hstep : ∀ {b b'}, P b → Superstep G S limit b b' → P b') (hb : b.writes = []) (hP : P b)
    (h : Reaches G S limit b c) (hdone : c.Done) : P c :=
  invariant_of_supersteps hstep hP ((reaches_iff_supersteps G S limit hb hdone).mp h)

/-- A preorder that every superstep moves up in, a run moves up in from any of its
    points on. -/
theorem Reaches.rel_of_invariant {a c c' : Config ν σ π υ} {P : Config ν σ π υ → Prop}
    {R : σ → σ → Prop} (hrefl : ∀ s, R s s) (htrans : ∀ {s s' s''}, R s s' → R s' s'' → R s s'')
    (hstep : ∀ {b b'}, P b → Superstep G S limit b b' → P b' ∧ R b.state b'.state)
    (ha : a.writes = []) (hP : P a) (hc : Reaches G S limit a c) (h : Reaches G S limit c c') :
    R c.state c'.state := by
  induction h with
  | refl => exact hrefl _
  | tail hmid hlast ih =>
    obtain ⟨b, hb, hwithin⟩ := Reaches.within_of_invariant (fun hP hsuper => (hstep hP hsuper).1)
      ha hP (hc.trans hmid)
    refine htrans ih ?_
    rw [hwithin.state]
    rcases hwithin.step G S limit hlast with hwithin' | ⟨hsuper, -⟩
    · rw [hwithin'.state]
      exact hrefl _
    · exact (hstep hb hsuper).2

/-- Why a run can raise inside the superstep that began at `b`. -/
theorem Within.fails {b c : Config ν σ π υ} {e : Failure ε} (h : Within G limit b c)
    (hfails : Fails G S limit c e) :
    limit ≤ b.supersteps ∨
    (∃ t ∈ b.pending, ∃ e, G.exec t.node b.state t.arg = .error e) ∨
    ∃ ws : List (Task ν π × υ), (ws.map (·.1)).Perm b.pending ∧ ws ≠ [] ∧
      (∀ w ∈ ws, G.exec w.1.node b.state w.1.arg = .ok w.2) ∧
      (S.applyWrites b.state (ws.map (·.2)) = none ∨
        ∃ s e, S.applyWrites b.state (ws.map (·.2)) = some s ∧
          G.next (ws.map (·.1.node)) s = .error e) := by
  cases hfails with
  | limit hlimit => exact .inl (h.supersteps ▸ hlimit)
  | @node t e _ ht hexec =>
    exact .inr (.inl ⟨t, h.mem_pending G limit ht, e, h.state ▸ hexec⟩)
  | conflict _ hpending hwrites hmerge =>
    have hperm := h.perm
    rw [hpending, List.append_nil] at hperm
    exact .inr (.inr ⟨c.writes, hperm, hwrites, h.exec, .inl (h.state ▸ hmerge)⟩)
  | @edge s e _ hpending hwrites hmerge hnext =>
    have hperm := h.perm
    rw [hpending, List.append_nil] at hperm
    exact .inr (.inr ⟨c.writes, hperm, hwrites, h.exec, .inr ⟨s, e, h.state ▸ hmerge, hnext⟩⟩)

end StateGraph
