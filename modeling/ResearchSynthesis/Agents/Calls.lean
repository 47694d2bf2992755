-- SUMMARY: Code that calls the services: what it comes to, and the searches and prompts it has made by then.
import ResearchSynthesis.Exceptions

/-!
# Calls to the services

A node searches the web and prompts the model. `Calling α` is what such code
comes to together with the calls it has made by then, which count even where it
raises. `Calling.Within` bounds them, with a rule for each way to build code.
-/

namespace ResearchSynthesis
open Python

inductive Message where
  /-- A system prompt, with or without the `cache_control` marker. -/
  | system (content : Str) (cached : Bool)
  | human (content : Str)

/-- The value of code or what it raises, the number of its searches, and the
    messages it has prompted the model with. -/
structure Calling (α : Type) where
  outcome : Except Exn α
  searches : Nat := 0
  prompts : List (List Message) := []

namespace Calling

variable {α β : Type}

/-- Code that raises makes no further calls. -/
def bind (x : Calling α) (f : α → Calling β) : Calling β :=
  match x.outcome with
  | .error e => { outcome := .error e, searches := x.searches, prompts := x.prompts }
  | .ok a =>
    let y := f a
    { outcome := y.outcome
      searches := x.searches + y.searches
      prompts := x.prompts ++ y.prompts }

instance : Monad Calling where
  pure a := { outcome := .ok a }
  bind := bind

instance : MonadLift (Except Exn) Calling where
  monadLift x := { outcome := x }

def raise (e : Exn) : Calling α := { outcome := .error e }

/-- A `try` block: what it raises is left to the handler. -/
def attempt (x : Calling α) : Calling (Except Exn α) :=
  { outcome := .ok x.outcome, searches := x.searches, prompts := x.prompts }

@[simp] theorem outcome_pure (a : α) : (pure a : Calling α).outcome = .ok a := rfl

@[simp] theorem outcome_lift (x : Except Exn α) : (liftM x : Calling α).outcome = x := rfl

@[simp] theorem outcome_attempt (x : Calling α) : x.attempt.outcome = .ok x.outcome := rfl

@[simp] theorem outcome_bind (x : Calling α) (f : α → Calling β) :
    (x >>= f).outcome = x.outcome >>= fun a => (f a).outcome := by
  change (x.bind f).outcome = _
  rw [bind]
  cases x.outcome <;> rfl

/-- Code that goes on with the value of other code, and calls no service. -/
theorem outcome_lift_map (x : Except Exn α) (f : α → β) :
    (liftM x >>= fun a => pure (f a) : Calling β).outcome = x.map f := by
  rw [outcome_bind, outcome_lift]
  rfl

theorem prompts_lift_map (x : Except Exn α) (f : α → β) :
    (liftM x >>= fun a => pure (f a) : Calling β).prompts = [] := by
  change (bind _ _).prompts = _
  cases x <;> rfl

theorem prompts_bind_of_ok {x : Calling α} {a : α} (h : x.outcome = .ok a) (f : α → Calling β) :
    (x >>= f).prompts = x.prompts ++ (f a).prompts := by
  change (x.bind f).prompts = _
  rw [bind, h]

/-! ## Bounds -/

/-- At most so many searches and prompts. -/
structure Within (x : Calling α) (searches prompts : Nat) : Prop where
  searches_le : x.searches ≤ searches
  prompts_le : x.prompts.length ≤ prompts

theorem Within.mono {x : Calling α} {searches searches' prompts prompts' : Nat}
    (h : x.Within searches prompts) (hsearches : searches ≤ searches')
    (hprompts : prompts ≤ prompts') : x.Within searches' prompts' :=
  ⟨h.searches_le.trans hsearches, h.prompts_le.trans hprompts⟩

theorem within_pure (a : α) : (pure a : Calling α).Within 0 0 := ⟨le_rfl, le_rfl⟩

theorem within_lift (x : Except Exn α) : (liftM x : Calling α).Within 0 0 := ⟨le_rfl, le_rfl⟩

theorem Within.attempt {x : Calling α} {searches prompts : Nat} (h : x.Within searches prompts) :
    x.attempt.Within searches prompts :=
  ⟨h.searches_le, h.prompts_le⟩

/-- The bounds of what is done one after the other add up. -/
theorem Within.bind {x : Calling α} {f : α → Calling β} {searches searches' prompts prompts' : Nat}
    (h : x.Within searches prompts) (hf : ∀ a, (f a).Within searches' prompts') :
    (x >>= f).Within (searches + searches') (prompts + prompts') := by
  change (x.bind f).Within _ _
  rw [Calling.bind]
  cases x.outcome with
  | error e =>
    exact ⟨h.searches_le.trans (Nat.le_add_right _ _), h.prompts_le.trans (Nat.le_add_right _ _)⟩
  | ok a =>
    have := h.searches_le
    have := h.prompts_le
    have := (hf a).searches_le
    have := (hf a).prompts_le
    refine ⟨?_, ?_⟩
    · dsimp only
      omega
    · simp only [List.length_append]
      omega

/-- Code that calls no service adds nothing after other code. -/
theorem Within.then_free {x : Calling α} {f : α → Calling β} {searches prompts : Nat}
    (h : x.Within searches prompts) (hf : ∀ a, (f a).Within 0 0) :
    (x >>= f).Within searches prompts :=
  h.bind hf

/-- It adds nothing before other code either. -/
theorem within_lift_bind {x : Except Exn α} {f : α → Calling β} {searches prompts : Nat}
    (hf : ∀ a, (f a).Within searches prompts) : (liftM x >>= f).Within searches prompts := by
  have h := (within_lift x).bind hf
  rwa [Nat.zero_add, Nat.zero_add] at h

end Calling

end ResearchSynthesis
