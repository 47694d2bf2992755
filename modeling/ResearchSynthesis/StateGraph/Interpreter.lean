-- SUMMARY: An interpreter that runs one task after another, and that the interleaved runs come to exactly what it comes to.
import ResearchSynthesis.StateGraph.Run

/-!
# Running a state graph

`interpret` runs a graph without concurrency: a superstep is a loop over its
tasks in an order that a schedule fixes, and the schedule's length is the
recursion limit, which takes one entry to see that no task is left.
`comesTo_iff_interpret` says that this is all there is to the interleaved runs:
what a run comes to, at its end or by raising, is what the interpreter comes to
under some schedule, and the other way round.
-/

namespace StateGraph

/-! ## Orders -/

/-- A way to arrange lists. -/
structure Order (α : Type) where
  arrange : List α → List α
  perm : ∀ xs, (arrange xs).Perm xs

namespace Order

variable {α β : Type}

/-- Leave every list as it is. -/
def keep : Order α := ⟨id, .refl⟩

open Classical in
/-- Arrange `xs` as `ys`, and leave every other list as it is. -/
noncomputable def of {xs ys : List α} (h : ys.Perm xs) : Order α where
  arrange zs := if zs = xs then ys else zs
  perm zs := by
    split
    · next heq => rw [heq]; exact h
    · exact .refl zs

@[simp] theorem arrange_of {xs ys : List α} (h : ys.Perm xs) : (of h).arrange xs = ys :=
  if_pos rfl

@[simp] theorem arrange_nil (o : Order α) : o.arrange [] = [] := List.perm_nil.mp (o.perm [])

@[simp] theorem arrange_singleton (o : Order α) (x : α) : o.arrange [x] = [x] :=
  List.perm_singleton.mp (o.perm [x])

@[ext] theorem ext {o o' : Order α} (h : ∀ xs, o.arrange xs = o'.arrange xs) : o = o' := by
  cases o; cases o'
  simpa [funext_iff] using h

section
variable {f : α → β} {g : β → Option α}

/-- Arrange `xs` as their images under `f`, which `g` takes back. -/
def comap (o : Order β) (hg : ∀ x, g (f x) = some x) : Order α where
  arrange xs := (o.arrange (xs.map f)).filterMap g
  perm xs := by
    have h := (o.perm (xs.map f)).filterMap g
    rwa [List.filterMap_map, funext (f := g ∘ f) hg, List.filterMap_some] at h

theorem map_arrange_comap (o : Order β) (hg : ∀ x, g (f x) = some x) (xs : List α) :
    ((o.comap hg).arrange xs).map f = o.arrange (xs.map f) := by
  have hback : ∀ ys : List β, (∀ y ∈ ys, ∃ x, f x = y) → (ys.filterMap g).map f = ys := by
    intro ys hys
    induction ys with
    | nil => rfl
    | cons y ys ih =>
      obtain ⟨⟨x, rfl⟩, hrest⟩ := List.forall_mem_cons.mp hys
      rw [List.filterMap_cons_some (hg x), List.map_cons, ih hrest]
  refine hback _ fun y hy => ?_
  obtain ⟨x, -, hx⟩ := List.mem_map.mp ((o.perm _).mem_iff.mp hy)
  exact ⟨x, hx⟩

open Classical in
/-- Arrange the images of `xs` as `xs`, and leave every other list as it is. -/
noncomputable def map (o : Order α) (f : α → β) : Order β where
  arrange ys := if h : ∃ xs, xs.map f = ys then (o.arrange h.choose).map f else ys
  perm ys := by
    split
    · next h =>
      have hperm := (o.perm h.choose).map f
      rwa [h.choose_spec] at hperm
    · exact .refl ys

theorem arrange_map (o : Order α) (hf : Function.Injective f) (xs : List α) :
    (o.map f).arrange (xs.map f) = (o.arrange xs).map f := by
  have h : ∃ zs : List α, zs.map f = xs.map f := ⟨xs, rfl⟩
  have hxs : h.choose = xs := List.map_injective_iff.mpr hf h.choose_spec
  simp only [map]
  rw [dif_pos h, hxs]

/-- Every order is one that comes from the images. -/
theorem comap_map (o : Order α) (hf : Function.Injective f) (hg : ∀ x, g (f x) = some x) :
    (o.map f).comap hg = o := by
  ext1 xs
  refine List.map_injective_iff.mpr hf ?_
  rw [map_arrange_comap, arrange_map o hf]

end

end Order

/-! ## Running a list of calls -/

section
variable {α β ε : Type} {f : α → Except ε β}

theorem mapM_eq_ok_iff {xs : List α} {ys : List β} :
    xs.mapM f = .ok ys ↔
      ∃ ws : List (α × β), ws.map (·.1) = xs ∧ ws.map (·.2) = ys ∧ ∀ w ∈ ws, f w.1 = .ok w.2 := by
  induction xs generalizing ys with
  | nil =>
    rw [List.mapM_nil]
    constructor
    · intro h
      exact ⟨[], rfl, Except.ok.inj h, by simp⟩
    · rintro ⟨ws, hxs, rfl, -⟩
      rw [List.map_eq_nil_iff.mp hxs]
      rfl
  | cons x xs ih =>
    rw [List.mapM_cons]
    constructor
    · intro h
      cases hx : f x with
      | error e =>
        rw [hx] at h
        cases h
      | ok y =>
        rw [hx] at h
        cases hxs : xs.mapM f with
        | error e =>
          rw [hxs] at h
          cases h
        | ok ys' =>
          rw [hxs] at h
          cases h
          obtain ⟨ws, rfl, rfl, hws⟩ := ih.mp hxs
          exact ⟨(x, y) :: ws, rfl, rfl, List.forall_mem_cons.mpr ⟨hx, hws⟩⟩
    · rintro ⟨ws, hxs, rfl, hws⟩
      obtain ⟨w, ws, rfl, rfl, rfl⟩ := List.map_eq_cons_iff.mp hxs
      obtain ⟨hw, hws⟩ := List.forall_mem_cons.mp hws
      rw [hw, ih.mpr ⟨ws, rfl, rfl, hws⟩]
      rfl

theorem mapM_error {xs : List α} {e : ε} (h : xs.mapM f = .error e) : ∃ x ∈ xs, f x = .error e := by
  induction xs with
  | nil => cases h
  | cons x xs ih =>
    rw [List.mapM_cons] at h
    cases hx : f x with
    | error e' =>
      rw [hx] at h
      cases h
      exact ⟨x, by simp, hx⟩
    | ok y =>
      rw [hx] at h
      cases hxs : xs.mapM f with
      | error e' =>
        rw [hxs] at h
        cases h
        obtain ⟨x', hx', he⟩ := ih hxs
        exact ⟨x', List.mem_cons_of_mem _ hx', he⟩
      | ok ys =>
        rw [hxs] at h
        cases h

theorem exists_mapM_ok {xs : List α} (h : ∀ x ∈ xs, ∃ y, f x = .ok y) :
    ∃ ys, xs.mapM f = .ok ys := by
  cases hrun : xs.mapM f with
  | ok ys => exact ⟨ys, rfl⟩
  | error e =>
    obtain ⟨x, hx, hraised⟩ := mapM_error hrun
    obtain ⟨y, hy⟩ := h x hx
    cases hraised.symm.trans hy

theorem mapM_cons_error {x : α} {xs : List α} {e : ε} (h : f x = .error e) :
    (x :: xs).mapM f = .error e := by
  rw [List.mapM_cons, h]
  rfl

end

variable {κ ν σ π υ ε : Type}

/-! ## The interpreter -/

variable [DecidableEq κ] [DecidableEq ν]

/-- Run the tasks of a superstep in the given order, merge what they return, and
    find the tasks of the next one. -/
def superstep (G : Graph ν σ π υ ε) (S : Schema κ σ υ) (s : σ) (ts : List (Task ν π)) :
    Except (Failure ε) (σ × List (Task ν π)) :=
  match ts.mapM fun t => G.exec t.node s t.arg with
  | .error e => .error (.raised e)
  | .ok us =>
    match S.applyWrites s us with
    | none => .error .invalidUpdate
    | some s' =>
      match G.next (ts.map (·.node)) s' with
      | .error e => .error (.raised e)
      | .ok ts' => .ok (s', ts')

/-- Run supersteps until no task is left, with an order of the schedule for each
    and one to end on. -/
def interpret (G : Graph ν σ π υ ε) (S : Schema κ σ υ) :
    List (Order (Task ν π)) → σ → List (Task ν π) → Except (Failure ε) σ
  | [], _, _ => .error .recursionLimit
  | _ :: _, s, [] => .ok s
  | o :: os, s, t :: ts =>
    match superstep G S s (o.arrange (t :: ts)) with
    | .error e => .error e
    | .ok (s', ts') => interpret G S os s' ts'

/-! ## What interleaved runs come to -/

/-- What the runs from `c₀` come to: the state at the end, or what is raised. -/
inductive ComesTo (G : Graph ν σ π υ ε) (S : Schema κ σ υ) (limit : Nat)
    (c₀ : Config ν σ π υ) : Except (Failure ε) σ → Prop where
  | done {c : Config ν σ π υ} (hreach : Reaches G S limit c₀ c) (hdone : c.Done)
      (hlimit : c.supersteps < limit) : ComesTo G S limit c₀ (.ok c.state)
  | fails {c : Config ν σ π υ} {e : Failure ε} (hreach : Reaches G S limit c₀ c)
      (hfails : Fails G S limit c e) : ComesTo G S limit c₀ (.error e)

section
variable {G : Graph ν σ π υ ε} {S : Schema κ σ υ} {limit : Nat}

/-- The superstep of a task that runs alone. -/
theorem superstep_singleton (s : σ) (t : Task ν π) :
    superstep G S s [t] =
      match G.exec t.node s t.arg with
      | .error e => .error (.raised e)
      | .ok u =>
        match S.applyWrites s [u] with
        | none => .error .invalidUpdate
        | some s' =>
          match G.next [t.node] s' with
          | .error e => .error (.raised e)
          | .ok ts' => .ok (s', ts') := by
  rw [superstep, List.mapM_cons, List.mapM_nil]
  cases G.exec t.node s t.arg <;> rfl

theorem superstep_eq_ok_iff {s s' : σ} {ts ts' : List (Task ν π)} :
    superstep G S s ts = .ok (s', ts') ↔
      ∃ ws : List (Task ν π × υ), ws.map (·.1) = ts ∧
        (∀ w ∈ ws, G.exec w.1.node s w.1.arg = .ok w.2) ∧
        S.applyWrites s (ws.map (·.2)) = some s' ∧ G.next (ws.map (·.1.node)) s' = .ok ts' := by
  rw [superstep]
  constructor
  · intro h
    split at h
    · cases h
    · next us hrun =>
      obtain ⟨ws, rfl, rfl, hexec⟩ := mapM_eq_ok_iff.mp hrun
      split at h
      · cases h
      · next s'' hmerge =>
        split at h
        · cases h
        · next ts'' hnext =>
          cases h
          rw [List.map_map] at hnext
          exact ⟨ws, rfl, hexec, hmerge, hnext⟩
  · rintro ⟨ws, rfl, hexec, hmerge, hnext⟩
    have hnodes : (ws.map (·.1)).map (·.node) = ws.map (·.1.node) := List.map_map
    rw [mapM_eq_ok_iff.mpr ⟨ws, rfl, rfl, hexec⟩]
    simp only [hmerge, hnodes, hnext]

/-- Why a superstep raises: a task does, or all return and their updates cannot be
    merged, or the edges raise. -/
theorem superstep_error_cases {s : σ} {ts : List (Task ν π)} {e : Failure ε}
    (h : superstep G S s ts = .error e) :
    (∃ t ∈ ts, ∃ e', G.exec t.node s t.arg = .error e' ∧ e = .raised e') ∨
    ∃ ws : List (Task ν π × υ), ws.map (·.1) = ts ∧
      (∀ w ∈ ws, G.exec w.1.node s w.1.arg = .ok w.2) ∧
      ((S.applyWrites s (ws.map (·.2)) = none ∧ e = .invalidUpdate) ∨
        ∃ s' e', S.applyWrites s (ws.map (·.2)) = some s' ∧
          G.next (ws.map (·.1.node)) s' = .error e' ∧ e = .raised e') := by
  rw [superstep] at h
  split at h
  · next e' hrun =>
    cases h
    obtain ⟨t, ht, hexec⟩ := mapM_error hrun
    exact .inl ⟨t, ht, e', hexec, rfl⟩
  · next us hrun =>
    obtain ⟨ws, rfl, rfl, hexec⟩ := mapM_eq_ok_iff.mp hrun
    refine .inr ⟨ws, rfl, hexec, ?_⟩
    split at h
    · next hmerge =>
      cases h
      exact .inl ⟨hmerge, rfl⟩
    · next s' hmerge =>
      split at h
      · next e' hnext =>
        cases h
        rw [List.map_map] at hnext
        exact .inr ⟨s', e', hmerge, hnext, rfl⟩
      · cases h

theorem interpret_nil (o : Order (Task ν π)) (os : List (Order (Task ν π))) (s : σ) :
    interpret G S (o :: os) s [] = .ok s := rfl

theorem interpret_cons {o : Order (Task ν π)} {os : List (Order (Task ν π))} {s : σ}
    {ts : List (Task ν π)} (h : ts ≠ []) :
    interpret G S (o :: os) s ts =
      match superstep G S s (o.arrange ts) with
      | .error e => .error e
      | .ok (s', ts') => interpret G S os s' ts' := by
  obtain ⟨t, ts, rfl⟩ := List.exists_cons_of_ne_nil h
  rfl

/-- A superstep of a run is a superstep of the interpreter. -/
theorem Superstep.interpret {b b' : Config ν σ π υ} (h : Superstep G S limit b b') :
    b.supersteps < limit ∧ b'.supersteps = b.supersteps + 1 ∧ b'.writes = [] ∧
      ∃ o, ∀ os, interpret G S (o :: os) b.state b.pending = interpret G S os b'.state b'.pending := by
  have hpending := h.pending_ne_nil
  cases h with
  | @mk ws s ts hlimit _ _ hperm hexec hmerge hnext =>
    refine ⟨hlimit, rfl, rfl, Order.of hperm, fun os => ?_⟩
    have hstep : superstep G S b.state (ws.map (·.1)) = .ok (s, ts) :=
      superstep_eq_ok_iff.mpr ⟨ws, rfl, hexec, hmerge, hnext⟩
    rw [interpret_cons hpending, Order.arrange_of, hstep]
    rfl

theorem interpret_error_of_superstep {b : Config ν σ π υ} {ts : List (Task ν π)} {e : Failure ε}
    (hlimit : b.supersteps < limit) (hne : ts ≠ []) (hperm : ts.Perm b.pending)
    (h : superstep G S b.state ts = .error e) :
    ∃ os, os.length = limit - b.supersteps ∧ interpret G S os b.state b.pending = .error e := by
  have hpending : b.pending ≠ [] := fun hnil => hne (List.perm_nil.mp (hnil ▸ hperm))
  refine ⟨Order.of hperm :: List.replicate (limit - b.supersteps - 1) Order.keep, ?_, ?_⟩
  · rw [List.length_cons, List.length_replicate]
    omega
  · rw [interpret_cons hpending, Order.arrange_of, h]

/-- Where the superstep that began at `b` raises, so does the interpreter. -/
theorem Within.interpret_error {b c : Config ν σ π υ} {e : Failure ε} (h : Within G limit b c)
    (hfails : Fails G S limit c e) :
    ∃ os, os.length = limit - b.supersteps ∧ interpret G S os b.state b.pending = .error e := by
  have hsupersteps := h.supersteps
  cases hfails with
  | limit hlimit =>
    refine ⟨[], ?_, rfl⟩
    rw [List.length_nil]
    omega
  | @node t e hlimit ht hexec =>
    obtain ⟨before, after, hsplit⟩ := List.append_of_mem (h.mem_pending G limit ht)
    have hfirst : (t :: (before ++ after)).Perm b.pending := hsplit ▸ List.perm_middle.symm
    refine interpret_error_of_superstep (hsupersteps ▸ hlimit) (by simp) hfirst ?_
    rw [superstep, mapM_cons_error (h.state ▸ hexec)]
  | conflict hlimit hpending hwrites hmerge =>
    have hperm : (c.writes.map (·.1)).Perm b.pending := by simpa [hpending] using h.perm
    refine interpret_error_of_superstep (hsupersteps ▸ hlimit) (by simpa using hwrites) hperm ?_
    rw [superstep, mapM_eq_ok_iff.mpr ⟨c.writes, rfl, rfl, h.exec⟩]
    simp only [h.state ▸ hmerge]
  | edge hlimit hpending hwrites hmerge hnext =>
    have hperm : (c.writes.map (·.1)).Perm b.pending := by simpa [hpending] using h.perm
    refine interpret_error_of_superstep (hsupersteps ▸ hlimit) (by simpa using hwrites) hperm ?_
    have hnodes : (c.writes.map (·.1)).map (·.node) = c.writes.map (·.1.node) := List.map_map
    rw [superstep, mapM_eq_ok_iff.mpr ⟨c.writes, rfl, rfl, h.exec⟩]
    simp only [h.state ▸ hmerge, hnodes, hnext]

/-! ## From runs to the interpreter -/

theorem exists_schedule {b b' : Config ν σ π υ} {r : Except (Failure ε) σ}
    (hrun : Relation.ReflTransGen (Superstep G S limit) b b')
    (hend : ∃ os, os.length = limit - b'.supersteps ∧ interpret G S os b'.state b'.pending = r) :
    ∃ os, os.length = limit - b.supersteps ∧ interpret G S os b.state b.pending = r := by
  induction hrun using Relation.ReflTransGen.head_induction_on with
  | refl => exact hend
  | head hstep _ ih =>
    obtain ⟨hlimit, hsupersteps, -, o, ho⟩ := hstep.interpret
    obtain ⟨os, hlength, hos⟩ := ih
    refine ⟨o :: os, ?_, by rw [ho, hos]⟩
    rw [List.length_cons]
    omega

theorem ComesTo.exists_interpret {b : Config ν σ π υ} (hb : b.writes = [])
    {r : Except (Failure ε) σ} (h : ComesTo G S limit b r) :
    ∃ os, os.length = limit - b.supersteps ∧ interpret G S os b.state b.pending = r := by
  cases h with
  | @done c hreach hdone hlimit =>
    refine exists_schedule (hreach.superstep_of_done G S limit hb hdone)
      ⟨Order.keep :: List.replicate (limit - c.supersteps - 1) Order.keep, ?_, ?_⟩
    · rw [List.length_cons, List.length_replicate]
      omega
    · rw [hdone.1, interpret_nil]
  | fails hreach hfails =>
    obtain ⟨b', hrun, hwithin⟩ := hreach.superstep G S limit hb
    exact exists_schedule hrun (hwithin.interpret_error hfails)

/-! ## From the interpreter to runs -/

theorem ComesTo.of_reaches {b b' : Config ν σ π υ} {r : Except (Failure ε) σ}
    (hreach : Reaches G S limit b b') (h : ComesTo G S limit b' r) : ComesTo G S limit b r := by
  cases h with
  | done hreach' hdone hlimit => exact .done (hreach.trans hreach') hdone hlimit
  | fails hreach' hfails => exact .fails (hreach.trans hreach') hfails

/-- A superstep that raises in the interpreter raises in a run. -/
theorem comesTo_of_superstep_error {b : Config ν σ π υ} (hb : b.writes = [])
    (hlimit : b.supersteps < limit) {ts : List (Task ν π)} (hne : ts ≠ [])
    (hperm : ts.Perm b.pending) {e : Failure ε} (h : superstep G S b.state ts = .error e) :
    ComesTo G S limit b (.error e) := by
  rcases superstep_error_cases h with ⟨t, ht, e', hexec, rfl⟩ | ⟨ws, rfl, hexec, hbad⟩
  · exact .fails .refl (.node hlimit (hperm.mem_iff.mp ht) hexec)
  · have hws : ws ≠ [] := by simpa using hne
    obtain ⟨rest, hrest, hreach⟩ :=
      reaches_finish G S limit hlimit ws [] [] (by simpa using hperm.symm) hexec
    obtain rfl : rest = [] := by simpa using hrest
    have hstart : { b with writes := [] } = b := by cases b; simp_all
    rw [hstart] at hreach
    refine .of_reaches hreach (.fails .refl ?_)
    rcases hbad with ⟨hmerge, rfl⟩ | ⟨s, e', hmerge, hnext, rfl⟩
    · exact .conflict hlimit rfl hws hmerge
    · exact .edge hlimit rfl hws hmerge hnext

/-- A superstep that returns in the interpreter is one of a run. -/
theorem exists_superstep_of_ok {b : Config ν σ π υ} (hb : b.writes = [])
    (hlimit : b.supersteps < limit) {ts ts' : List (Task ν π)} (hne : ts ≠ [])
    (hperm : ts.Perm b.pending) {s : σ} (h : superstep G S b.state ts = .ok (s, ts')) :
    ∃ executed, Superstep G S limit b (.barrier s ts' executed (b.supersteps + 1)) := by
  obtain ⟨ws, rfl, hexec, hmerge, hnext⟩ := superstep_eq_ok_iff.mp h
  exact ⟨_, .mk hlimit hb (by simpa using hne) hperm hexec hmerge hnext⟩

theorem comesTo_interpret {b : Config ν σ π υ} (hb : b.writes = [])
    {os : List (Order (Task ν π))} (hlength : os.length = limit - b.supersteps) :
    ComesTo G S limit b (interpret G S os b.state b.pending) := by
  induction os generalizing b with
  | nil =>
    rw [List.length_nil] at hlength
    exact .fails .refl (.limit (by omega))
  | cons o os ih =>
    have hlimit : b.supersteps < limit := by rw [List.length_cons] at hlength; omega
    by_cases hpending : b.pending = []
    · rw [hpending, interpret_nil]
      exact .done .refl ⟨hpending, hb⟩ hlimit
    · have hne : o.arrange b.pending ≠ [] := fun hnil =>
        hpending (List.nil_perm.mp (hnil ▸ o.perm b.pending))
      rw [interpret_cons hpending]
      cases hstep : superstep G S b.state (o.arrange b.pending) with
      | error e => exact comesTo_of_superstep_error hb hlimit hne (o.perm _) hstep
      | ok next =>
        obtain ⟨executed, hsuper⟩ := exists_superstep_of_ok hb hlimit hne (o.perm _) hstep
        refine .of_reaches (hsuper.reaches G S limit) (ih rfl ?_)
        rw [List.length_cons] at hlength
        simp only [Config.barrier]
        omega

/-- What the interleaved runs come to is what the interpreter comes to, over all
    schedules as long as the recursion limit. -/
theorem comesTo_iff_interpret {b : Config ν σ π υ} (hb : b.writes = []) {r : Except (Failure ε) σ} :
    ComesTo G S limit b r ↔
      ∃ os, os.length = limit - b.supersteps ∧ interpret G S os b.state b.pending = r := by
  refine ⟨fun h => h.exists_interpret hb, ?_⟩
  rintro ⟨os, hlength, rfl⟩
  exact comesTo_interpret hb hlength

end

end StateGraph
