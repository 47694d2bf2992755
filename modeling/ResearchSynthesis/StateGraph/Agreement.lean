-- SUMMARY: Graphs that do the same wherever a run comes to: they have the same runs, and fail at the same points.
import ResearchSynthesis.StateGraph.Run

/-!
# Graphs that agree along their runs

Two graphs with the same edges need not have the same nodes to have the same
runs: it is enough that the tasks pending at a point that is reached do the same
in both.
-/

namespace StateGraph

variable {κ ν σ π υ ε : Type} [DecidableEq κ] [DecidableEq ν]
variable {G G' : Graph ν σ π υ ε} {S : Schema κ σ υ} {limit : Nat}

/-- The tasks pending at `c` do in `G'` what they do in `G`. -/
def AgreeAt (G G' : Graph ν σ π υ ε) (c : Config ν σ π υ) : Prop :=
  ∀ t ∈ c.pending, G'.exec t.node c.state t.arg = G.exec t.node c.state t.arg

omit [DecidableEq ν] in
theorem AgreeAt.symm {c : Config ν σ π υ} (h : AgreeAt G G' c) : AgreeAt G' G c :=
  fun t ht => (h t ht).symm

theorem Step.transfer (hnext : G'.next = G.next) {c c' : Config ν σ π υ} (h : AgreeAt G G' c)
    (hstep : Step G S limit c c') : Step G' S limit c c' := by
  cases hstep with
  | @finish before after t u hlimit hpending hexec =>
    exact .finish hlimit hpending ((h t (by rw [hpending]; simp)).trans hexec)
  | barrier hlimit hpending hwrites hmerge hrest =>
    exact .barrier hlimit hpending hwrites hmerge (by rw [hnext, hrest])

theorem Fails.transfer (hnext : G'.next = G.next) {c : Config ν σ π υ} {e : Failure ε}
    (h : AgreeAt G G' c) (hfails : Fails G S limit c e) : Fails G' S limit c e := by
  cases hfails with
  | limit hlimit => exact .limit hlimit
  | node hlimit ht hexec => exact .node hlimit ht ((h _ ht).trans hexec)
  | conflict hlimit hpending hwrites hmerge => exact .conflict hlimit hpending hwrites hmerge
  | edge hlimit hpending hwrites hmerge hrest =>
    exact .edge hlimit hpending hwrites hmerge (by rw [hnext, hrest])

/-- `G'` has the edges of `G` and agrees with it wherever a run of `G` from `c₀`
    comes to. -/
structure Agree (G G' : Graph ν σ π υ ε) (S : Schema κ σ υ) (limit : Nat)
    (c₀ : Config ν σ π υ) : Prop where
  next : G'.next = G.next
  exec : ∀ c, Reaches G S limit c₀ c → AgreeAt G G' c

theorem Agree.reaches_iff {c₀ c : Config ν σ π υ} (h : Agree G G' S limit c₀) :
    Reaches G' S limit c₀ c ↔ Reaches G S limit c₀ c := by
  constructor
  · intro hreach
    induction hreach with
    | refl => exact .refl
    | tail _ hstep ih => exact ih.tail (hstep.transfer h.next.symm (h.exec _ ih).symm)
  · intro hreach
    induction hreach with
    | refl => exact .refl
    | tail hreach hstep ih => exact ih.tail (hstep.transfer h.next (h.exec _ hreach))

theorem Agree.fails_iff {c₀ c : Config ν σ π υ} {e : Failure ε} (h : Agree G G' S limit c₀)
    (hreach : Reaches G S limit c₀ c) : Fails G' S limit c e ↔ Fails G S limit c e :=
  ⟨Fails.transfer h.next.symm (h.exec c hreach).symm, Fails.transfer h.next (h.exec c hreach)⟩

/-! ## What a run comes to -/

/-- Every run can be continued until it is over or raises. -/
theorem exists_outcome (G : Graph ν σ π υ ε) (S : Schema κ σ υ) (limit : Nat)
    (c : Config ν σ π υ) :
    ∃ c', Reaches G S limit c c' ∧
      ((c'.Done ∧ c'.supersteps < limit) ∨ ∃ e, Fails G S limit c' e) := by
  induction step_terminates G S limit c with
  | intro c _ ih =>
    rcases progress G S limit c with hdone | hfails | ⟨c', hstep⟩
    · exact ⟨c, .refl, .inl hdone⟩
    · exact ⟨c, .refl, .inr hfails⟩
    · obtain ⟨c'', hreach, hend⟩ := ih c' hstep
      exact ⟨c'', hreach.head hstep, hend⟩

/-- A task that has been executed has returned. -/
theorem Reaches.exec_of_executed {b c : Config ν σ π υ} (hwrites : b.writes = [])
    (hexecuted : b.executed = []) (h : Reaches G S limit b c) :
    ∀ t ∈ c.executed, ∃ s u, G.exec t.node s t.arg = .ok u := by
  have hreturned : (∀ t ∈ c.executed, ∃ s u, G.exec t.node s t.arg = .ok u) ∧
      ∀ w ∈ c.writes, ∃ s u, G.exec w.1.node s w.1.arg = .ok u := by
    induction h with
    | refl => simp [hwrites, hexecuted]
    | tail _ hstep ih =>
      cases hstep with
      | @finish before after t u _ _ hexec =>
        refine ⟨ih.1, fun w hw => ?_⟩
        rcases List.mem_append.mp hw with hw | hw
        · exact ih.2 w hw
        · obtain rfl := List.mem_singleton.mp hw
          exact ⟨_, u, hexec⟩
      | barrier =>
        refine ⟨fun t ht => ?_, by simp [Config.barrier]⟩
        rcases List.mem_append.mp ht with ht | ht
        · exact ih.1 t ht
        · obtain ⟨w, hw, rfl⟩ := List.mem_map.mp ht
          exact ih.2 w hw
  exact hreturned.1

end StateGraph
