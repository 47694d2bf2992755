-- SUMMARY: The contract of the search core: how often it calls, what it returns, and what the summarizer makes of it.
import ResearchSynthesis.Agents.Searcher
import ResearchSynthesis.Agents.Summarizer

/-!
# The search contract

A search comes to what its last call came to: `searchAnswer` is that function.
Results and error exclude each other, so the summarizer, which looks at the
results, branches on the error.
-/

namespace ResearchSynthesis
open Python

theorem isRetryable_iff {exc : Exn} : isRetryable exc ↔
    exc.cls = .usageLimitExceededError ∨
      ∃ statusCode, exc.cls = .httpStatusError statusCode ∧ 500 ≤ statusCode := by
  unfold isRetryable
  cases exc.cls <;> simp

/-! ## The dicts of a response -/

def isDict : Json → Bool
  | .dict _ => true
  | _ => false

theorem map_dict_filterMap_asDict (items : List Json) :
    (items.filterMap asDict).map Json.dict = items.filter isDict := by
  induction items with
  | nil => rfl
  | cons item items ih =>
    rw [List.filterMap_cons, List.filter_cons, ← ih]
    cases item <;> simp [asDict, isDict]

theorem exists_list_of_responseResults {response : Dict} (h : responseResults response ≠ []) :
    ∃ items, response.get "results" = some (.list items) ∧
      (responseResults response).map Json.dict = items.filter isDict := by
  unfold responseResults at h ⊢
  split at h
  · next items hget => exact ⟨items, hget, map_dict_filterMap_asDict items⟩
  · exact absurd rfl h

/-! ## The last call decides -/

variable [UnicodeData]

/-- What a search comes to if this is the outcome of its last call. -/
def searchAnswer (subQuestion : Str) : Except Exn Dict → List Dict × Option Str
  | .error exc =>
    ([], some (lit "Tavily error for " ++ subQuestion.repr ++ lit ": " ++ exc.message))
  | .ok response =>
    if responseResults response = [] then ([], some (lit "No results for " ++ subQuestion.repr))
    else (responseResults response, none)

omit [UnicodeData] in
/-- The first call raises a rate limit or a server error. -/
def FailsTransiently (subQuestion : Str) (search : SearchFn) : Prop :=
  ∃ exc, search 0 subQuestion = .error exc ∧
    (exc.cls = .usageLimitExceededError ∨
      ∃ statusCode, exc.cls = .httpStatusError statusCode ∧ 500 ≤ statusCode)

theorem runTavilySearch_of_transient {subQuestion : Str} {search : SearchFn}
    (h : FailsTransiently subQuestion search) :
    runTavilySearch subQuestion search =
      ⟨(searchAnswer subQuestion (search 1 subQuestion)).1,
        (searchAnswer subQuestion (search 1 subQuestion)).2, 2⟩ := by
  obtain ⟨exc, hfirst, hcls⟩ := h
  have hretry := isRetryable_iff.mpr hcls
  have hrange : List.range 2 = [0, 1] := by decide
  rw [runTavilySearch, hrange]
  simp only [tavilyAttempts, hfirst, hretry]
  cases search 1 subQuestion with
  | error exc' => simp [searchAnswer]
  | ok response =>
    by_cases hempty : responseResults response = [] <;> simp [searchAnswer, hempty]

theorem runTavilySearch_of_not_transient {subQuestion : Str} {search : SearchFn}
    (h : ¬ FailsTransiently subQuestion search) :
    runTavilySearch subQuestion search =
      ⟨(searchAnswer subQuestion (search 0 subQuestion)).1,
        (searchAnswer subQuestion (search 0 subQuestion)).2, 1⟩ := by
  have hrange : List.range 2 = [0, 1] := by decide
  rw [runTavilySearch, hrange]
  simp only [tavilyAttempts]
  cases hfirst : search 0 subQuestion with
  | error exc =>
    have hfinal : ¬ isRetryable exc := fun hretry =>
      h ⟨exc, hfirst, isRetryable_iff.mp hretry⟩
    simp [searchAnswer, hfinal]
  | ok response =>
    by_cases hempty : responseResults response = [] <;> simp [searchAnswer, hempty]

theorem within_searcherNode (settings : Settings) (payload : Payload)
    (tavilyClient : Str → Except Exn Unit) (search : SearchFn) :
    (searcherNode settings payload tavilyClient search).Within 2 0 := by
  have hsearch : (tavilySearch payload search).Within 2 0 := by
    refine ⟨?_, le_rfl⟩
    change (runTavilySearch payload.subQuestion search).calls ≤ 2
    by_cases h : FailsTransiently payload.subQuestion search
    · rw [runTavilySearch_of_transient h]
    · rw [runTavilySearch_of_not_transient h]
      exact Nat.le_succ 1
  exact Calling.within_lift_bind fun _ => hsearch.then_free fun _ => Calling.within_pure _

/-- An answer is results and no error, or an error and no results. -/
theorem searchAnswer_cases (subQuestion : Str) (outcome : Except Exn Dict) :
    (∃ response items, outcome = .ok response ∧ response.get "results" = some (.list items) ∧
      (searchAnswer subQuestion outcome).1 ≠ [] ∧
      (searchAnswer subQuestion outcome).1.map Json.dict = items.filter isDict ∧
      (searchAnswer subQuestion outcome).2 = none) ∨
    ∃ e, searchAnswer subQuestion outcome = ([], some e) ∧ e ≠ [] := by
  cases outcome with
  | error exc => exact .inr ⟨_, rfl, by simp [lit]⟩
  | ok response =>
    by_cases hempty : responseResults response = []
    · exact .inr ⟨_, by rw [searchAnswer, if_pos hempty], by simp [lit]⟩
    · obtain ⟨items, hget, hitems⟩ := exists_list_of_responseResults hempty
      refine .inl ⟨response, items, rfl, hget, ?_⟩
      rw [searchAnswer, if_neg hempty]
      exact ⟨hempty, hitems, rfl⟩

theorem runTavilySearch_answer (subQuestion : Str) (search : SearchFn) :
    let searched := runTavilySearch subQuestion search
    (searched.results, searched.error) =
      searchAnswer subQuestion (search (searched.calls - 1) subQuestion) := by
  intro searched
  by_cases h : FailsTransiently subQuestion search
  · simp only [searched, runTavilySearch_of_transient h]
  · simp only [searched, runTavilySearch_of_not_transient h]

/-- Results and error exclude each other. -/
theorem runTavilySearch_exclusive (subQuestion : Str) (search : SearchFn) :
    let searched := runTavilySearch subQuestion search
    (searched.results ≠ [] ∧ searched.error = none) ∨
      searched.results = [] ∧ ∃ e, searched.error = some e ∧ e ≠ [] := by
  intro searched
  have hcases := searchAnswer_cases subQuestion (search (searched.calls - 1) subQuestion)
  rw [← runTavilySearch_answer] at hcases
  rcases hcases with ⟨_, _, -, -, hresults, -, herror⟩ | ⟨e, hpair, he⟩
  · exact .inl ⟨hresults, herror⟩
  · obtain ⟨hresults, herror⟩ := Prod.mk.inj hpair
    exact .inr ⟨hresults, e, herror, he⟩

/-! ## The search result and its summarizer -/

/-- The model is not called, whatever it would do. -/
def SkipsModel (searchResult : SearchResult) : Prop :=
  ∀ modelName call, ∃ x, (runSummarize searchResult modelName call).outcome = .ok x ∧
    (runSummarize searchResult modelName call).prompts = []

/-- The model is called once, with the results. What raises after that does so
    with the model's response. -/
def CallsModel (searchResult : SearchResult) : Prop :=
  ∀ modelName call,
    let messages := buildMessages searchResult.subQuestion searchResult.results
    (runSummarize searchResult modelName call).prompts = [messages] ∧
    ∀ e, (runSummarize searchResult modelName call).outcome = .error e →
      ∃ response, call.invoke messages = .ok response

theorem skipsModel_of_empty {searchResult : SearchResult} (h : searchResult.results = []) :
    SkipsModel searchResult :=
  fun _ _ => ⟨_, runSummarize_eq_ok_iff.mpr (.inl ⟨h, rfl⟩), by rw [prompts_runSummarize, if_pos h]⟩

theorem callsModel_of_nonempty {searchResult : SearchResult} (h : searchResult.results ≠ []) :
    CallsModel searchResult := by
  intro modelName call messages
  refine ⟨by rw [prompts_runSummarize, if_neg h], fun e he => ?_⟩
  cases hinvoke : call.invoke messages with
  | ok response => exact ⟨response, rfl⟩
  | error exc =>
    -- a call that raises degrades to a note, so the summarizer returns
    have hreturns : ∃ x, (runSummarize searchResult modelName call).outcome = .ok x :=
      ⟨_, runSummarize_eq_ok_iff.mpr (.inr (.inl ⟨exc, h, hinvoke, rfl⟩))⟩
    obtain ⟨x, hx⟩ := hreturns
    cases he.symm.trans hx

/-! ## The contract -/

/-- A search calls twice if its first call raised a transient failure and once
    otherwise. What it returns is decided by its last call: the dicts of that
    response's `results`, or an error. The summarizer calls the model exactly
    when there is no error. The texts of the errors are those of `Exn`, which
    assumes that `str(exc)` returns. -/
theorem search_contract (payload : Payload) (search : SearchFn) :
    let subQuestion := payload.subQuestion
    let searched := runTavilySearch subQuestion search
    let searchResult := searchResultOf payload search
    (FailsTransiently subQuestion search → searched.calls = 2) ∧
    (¬ FailsTransiently subQuestion search → searched.calls = 1) ∧
    (searched.results, searched.error) =
      searchAnswer subQuestion (search (searched.calls - 1) subQuestion) ∧
    ((∃ response items, search (searched.calls - 1) subQuestion = .ok response ∧
        response.get "results" = some (.list items) ∧ searched.results ≠ [] ∧
        searched.results.map Json.dict = items.filter isDict ∧ searched.error = none) ∨
      ∃ e, searched.results = [] ∧ searched.error = some e ∧ e ≠ []) ∧
    (searchResult.error ≠ none ↔ searchResult.results = []) ∧
    (searchResult.error ≠ none → SkipsModel searchResult) ∧
    (searchResult.error = none → CallsModel searchResult) := by
  intro subQuestion searched searchResult
  have hcases := searchAnswer_cases subQuestion (search (searched.calls - 1) subQuestion)
  rw [← runTavilySearch_answer] at hcases
  have hexclusive := runTavilySearch_exclusive subQuestion search
  refine ⟨fun h => ?_, fun h => ?_, runTavilySearch_answer subQuestion search, ?_, ?_, ?_, ?_⟩
  · exact congrArg Searched.calls (runTavilySearch_of_transient h)
  · exact congrArg Searched.calls (runTavilySearch_of_not_transient h)
  · rcases hcases with hfound | ⟨e, hpair, hne⟩
    · exact .inl hfound
    · obtain ⟨hresults, herror⟩ := Prod.mk.inj hpair
      exact .inr ⟨e, hresults, herror, hne⟩
  · rcases hexclusive with ⟨hresults, herror⟩ | ⟨hresults, e, herror, -⟩
    · exact iff_of_false (fun h => h herror) hresults
    · exact iff_of_true (fun h => by cases herror.symm.trans h) hresults
  · intro herror
    exact skipsModel_of_empty (hexclusive.resolve_left fun h => herror h.2).1
  · intro herror
    refine callsModel_of_nonempty (hexclusive.resolve_right ?_).1
    rintro ⟨-, e, he, -⟩
    cases he.symm.trans herror

end ResearchSynthesis
