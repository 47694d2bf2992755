-- SUMMARY: What one branch's searches and model call can change: its own search result, summary, cost entry and section, and nothing of the other branches.
import ResearchSynthesis.Graph.Outcomes
import ResearchSynthesis.Report.Order

/-!
# Isolation of branches

Two worlds that differ in what one branch meets outside, and in what the model
answers to the assembly, raise the same errors and end in states that are the
same beside that branch.
-/

namespace ResearchSynthesis
open Python StateGraph

variable [UnicodeData]

omit [UnicodeData] in
/-- The worlds differ at most in the searches and the model call of branch `i`,
    and in what the assembly is answered. -/
structure World.SameBut (w w' : World) (i : Nat) : Prop where
  settings : w.settings = w'.settings
  decomposeCall : w.decomposeCall = w'.decomposeCall
  branch : ∀ j ≠ i, w.branch j = w'.branch j
  branchClients : (w.branch i).clients w.settings = (w'.branch i).clients w'.settings
  assembleClients : w.assembleClients = w'.assembleClients

/-- The cost entry that a branch makes, if its model call returns. -/
def World.branchEntry (w : World) (payload : Payload) : Option CostEntry :=
  let branch := w.branch payload.index
  (runSummarize (searchResultOf payload branch.tavily) w.settings.workerModel
    branch.haiku).outcome.toOption.bind (·.entry)

/-- The same state, apart from what branch `i` and the assembly added and from the
    order of the branches. `heading` is the sub-question of branch `i`, if there
    is one, and `own` and `own'` are the entries it made. Sections whose
    sub-question `single` are the same to the letter. -/
structure ResearchState.SameBeside (s s' : ResearchState) (i : Nat) (heading : Option Str)
    (own own' : Option CostEntry) (single : Str → Prop) : Prop where
  question : s.question = s'.question
  subQuestions : s.subQuestions = s'.subQuestions
  searchResults :
    (s.searchResults.filter (·.nodeId ≠ lit "searcher_" ++ natStr i)).Perm
      (s'.searchResults.filter (·.nodeId ≠ lit "searcher_" ++ natStr i))
  costLog : ∃ shared, s.costLog.dropLast.Perm (shared ++ own.toList) ∧
    s'.costLog.dropLast.Perm (shared ++ own'.toList)
  sections : ∃ ss ss',
    (s.document.sections.filter (some ·.heading ≠ heading)).Perm ss ∧
    (s'.document.sections.filter (some ·.heading ≠ heading)).Perm ss' ∧
    List.Forall₂ (fun a b => a.SameUpToOrder b ∧ (single a.heading → a = b)) ss ss'

/-! ## Errors -/

section
variable {w w' : World} {i : Nat}

omit [UnicodeData] in
theorem World.SameBut.symm (h : w.SameBut w' i) : w'.SameBut w i where
  settings := h.settings.symm
  decomposeCall := h.decomposeCall.symm
  branch j hj := (h.branch j hj).symm
  branchClients := h.branchClients.symm
  assembleClients := h.assembleClients.symm

omit [UnicodeData] in
theorem World.SameBut.decomposeClients (h : w.SameBut w' i) :
    w.decomposeClients = w'.decomposeClients := by
  rw [World.decomposeClients, World.decomposeClients, h.settings, h.decomposeCall]

omit [UnicodeData] in
theorem World.SameBut.clients (h : w.SameBut w' i) (j : Nat) :
    (w.branch j).clients w.settings = (w'.branch j).clients w'.settings := by
  by_cases hj : j = i
  · rw [hj, h.branchClients]
  · rw [h.branch j hj, h.settings]

omit [UnicodeData] in
theorem World.SameBut.decomposes (h : w.SameBut w' i) {question : Str}
    {decomposed : DecomposedQuestion} (hd : w.Decomposes question decomposed) :
    w'.Decomposes question decomposed := by
  rw [World.Decomposes, ← h.decomposeCall]
  exact hd

omit [UnicodeData] in
/-- No cause of failure is to do with searches, model calls of branches or the
    answer to the assembly. -/
theorem World.SameBut.raises (h : w.SameBut w' i) {question : Str} {e : Exn}
    (hraises : w.Raises question e) : w'.Raises question e := by
  cases hraises with
  | decomposeClients he => exact .decomposeClients (h.decomposeClients ▸ he)
  | decomposeCall hclients he =>
    exact .decomposeCall (h.decomposeClients ▸ hclients) (h.decomposeCall ▸ he)
  | notDecomposed hclients hinvoke hparsed he =>
    exact .notDecomposed (h.decomposeClients ▸ hclients) (h.decomposeCall ▸ hinvoke) hparsed he
  | branchClients hclients hdecomposes hi he =>
    exact .branchClients (h.decomposeClients ▸ hclients) (h.decomposes hdecomposes)
      (h.settings ▸ hi) (h.clients _ ▸ he)
  | assembleClients hclients hdecomposes hbranches he =>
    refine .assembleClients (h.decomposeClients ▸ hclients) (h.decomposes hdecomposes)
      (fun j hj => ?_) (h.assembleClients ▸ he)
    rw [← h.settings] at hj
    rw [← h.clients]
    exact hbranches j hj

end

/-! ## The other branches -/

section
variable {w w' : World} {i : Nat} {qs : List Str} {bs bs' : List (Payload × BranchUpdate)}

theorem World.SameBut.mem_of_mem (h : w.SameBut w' i) (hbs : Joined w qs bs) (hbs' : Joined w' qs bs')
    {x : Payload × BranchUpdate} (hx : x ∈ bs) (hi : x.1.index ≠ i) : x ∈ bs' := by
  have hpayload : x.1 ∈ bs'.map (·.1) := by
    rw [hbs'.perm.mem_iff, ← h.settings, ← hbs.perm.mem_iff]
    exact List.mem_map_of_mem hx
  obtain ⟨x', hx', hsame⟩ := List.mem_map.mp hpayload
  have hresearched := hbs.researched x hx
  rw [h.settings, h.branch _ hi, ← hsame] at hresearched
  have hsame : x = x' := Prod.ext hsame.symm (hresearched.unique (hbs'.researched x' hx'))
  exact hsame ▸ hx'

/-- The branches other than `i`. -/
def others (i : Nat) (bs : List (Payload × BranchUpdate)) : List (Payload × BranchUpdate) :=
  bs.filter (·.1.index ≠ i)

/-- The other branches have added the same. -/
theorem World.SameBut.perm_others (h : w.SameBut w' i) (hbs : Joined w qs bs)
    (hbs' : Joined w' qs bs') : (others i bs).Perm (others i bs') := by
  refine (List.perm_ext_iff_of_nodup (hbs.nodup.filter _) (hbs'.nodup.filter _)).mpr fun x => ?_
  simp only [List.mem_filter, decide_eq_true_eq]
  exact ⟨fun ⟨hx, hi⟩ => ⟨h.mem_of_mem hbs hbs' hx hi, hi⟩,
    fun ⟨hx, hi⟩ => ⟨h.symm.mem_of_mem hbs' hbs hx hi, hi⟩⟩

theorem Joined.searchResults_others (h : Joined w qs bs) :
    (bs.map (·.2.searchResult)).filter (·.nodeId ≠ lit "searcher_" ++ natStr i) =
      (others i bs).map (·.2.searchResult) := by
  rw [List.filter_map, others]
  refine congrArg _ (List.filter_congr fun x hx => ?_)
  simp only [Function.comp_def, (h.researched x hx).nodeId, ne_eq, List.append_cancel_left_eq,
    natStr_injective.eq_iff]

/-! ## Sections -/

omit [UnicodeData] in
theorem getElem?_of_mem_payloads {settings : Settings} {p : Payload}
    (h : p ∈ payloads settings qs) :
    (qs.take settings.maxSubQuestions)[p.index]? = some p.subQuestion := by
  obtain ⟨j, hj, rfl⟩ := List.mem_iff_getElem.mp h
  rw [payloads, List.length_mapIdx] at hj
  simp only [payloads, List.getElem_mapIdx]
  exact List.getElem?_eq_getElem hj

/-- The branch with the heading's index is on the heading's sub-question. -/
theorem Joined.heading (h : Joined w qs bs) {x : Payload × BranchUpdate} (hx : x ∈ bs) :
    (qs.take w.settings.maxSubQuestions)[x.1.index]? = some x.1.subQuestion :=
  getElem?_of_mem_payloads (h.perm.mem_iff.mp (List.mem_map_of_mem hx))

theorem Researched.entry {payload : Payload} {b : BranchUpdate}
    (h : Researched w.settings (w.branch payload.index) payload b) :
    b.entry = w.branchEntry payload := by
  have hrun := h.summarized
  rw [h.searchResult] at hrun
  rw [World.branchEntry, hrun]
  rfl

theorem Joined.length_own (h : Joined w qs bs) :
    (bs.filter fun x => !decide (x.1.index ≠ i)).length ≤ 1 := by
  have hnodup : (bs.map (·.1.index)).Nodup := by
    have hperm := h.perm.map (·.index)
    rw [index_payloads, List.map_map] at hperm
    exact hperm.nodup_iff.mpr List.nodup_range
  have hcount := List.nodup_iff_count_le_one.mp hnodup i
  rw [List.count, List.countP_map, List.countP_eq_length_filter] at hcount
  simpa [Function.comp_def, beq_eq_decide] using hcount

/-- The entry of branch `i`, if there is such a branch and it made one. -/
theorem Joined.entry_own (h : Joined w qs bs) :
    (bs.filter fun x => !decide (x.1.index ≠ i)).filterMap (·.2.entry) =
      ((qs.take w.settings.maxSubQuestions)[i]?.bind fun q => w.branchEntry ⟨q, i⟩).toList := by
  rcases hown : bs.filter fun x => !decide (x.1.index ≠ i) with _ | ⟨x, rest⟩
  · -- no branch has the index, so there is no sub-question for it either
    have hnone : (qs.take w.settings.maxSubQuestions)[i]? = none := by
      rw [List.getElem?_eq_none_iff, List.length_take]
      by_contra hlt
      have hmem : i ∈ (bs.map (·.1)).map (·.index) := by
        rw [(h.perm.map (·.index)).mem_iff, index_payloads, List.mem_range, length_payloads]
        omega
      obtain ⟨p, hp, hindex⟩ := List.mem_map.mp hmem
      obtain ⟨x, hx, rfl⟩ := List.mem_map.mp hp
      have := List.filter_eq_nil_iff.mp hown x hx
      simp [hindex] at this
    rw [hown, hnone]
    rfl
  · have hlength := h.length_own (i := i)
    rw [hown, List.length_cons] at hlength
    obtain rfl : rest = [] := List.eq_nil_of_length_eq_zero (by omega)
    have hmem : x ∈ bs.filter fun x => !decide (x.1.index ≠ i) := hown ▸ List.mem_cons_self
    rw [hown]
    obtain ⟨hx, hindex⟩ := List.mem_filter.mp hmem
    obtain rfl : x.1.index = i := by simpa using hindex
    rw [h.heading hx, Option.bind_some, ← (h.researched x hx).entry]
    cases hentry : x.2.entry <;> simp [hentry]

/-- The entries are those of the other branches and its own. -/
theorem Joined.entry_perm (h : Joined w qs bs) :
    (bs.filterMap (·.2.entry)).Perm ((others i bs).filterMap (·.2.entry) ++
      ((qs.take w.settings.maxSubQuestions)[i]?.bind fun q => w.branchEntry ⟨q, i⟩).toList) := by
  rw [← h.entry_own, ← List.filterMap_append]
  exact (List.filter_append_perm _ bs).symm.filterMap _

theorem Joined.sourcesOf_others (h : Joined w qs bs) {q : Str}
    (hq : some q ≠ (qs.take w.settings.maxSubQuestions)[i]?) :
    sourcesOf (bs.map (·.2.searchResult)) q =
      sourcesOf ((others i bs).map (·.2.searchResult)) q := by
  rw [sourcesOf, sourcesOf, List.filter_map, List.filter_map, others, List.filter_filter]
  refine congrArg (List.flatMap _) (congrArg _ (List.filter_congr fun x hx => ?_))
  simp only [Function.comp_def, (h.researched x hx).subQuestion]
  by_cases hi : x.1.index = i
  · have hother : x.1.subQuestion ≠ q := by
      rintro rfl
      exact hq (hi ▸ (h.heading hx).symm)
    simp [hother]
  · simp [hi]

theorem Joined.perm_subQuestions (h : Joined w qs bs) :
    (bs.map (·.2.searchResult.subQuestion)).Perm (qs.take w.settings.maxSubQuestions) := by
  have hown : bs.map (·.2.searchResult.subQuestion) = bs.map (·.1.subQuestion) :=
    List.map_congr_left fun x hx => (h.researched x hx).subQuestion
  rw [hown, ← subQuestion_payloads]
  simpa [Function.comp_def] using h.perm.map (·.subQuestion)

/-- The sections of a fan-out. -/
def sectionsOf (bs : List (Payload × BranchUpdate)) : List Section :=
  (bs.map (·.2.summary)).map (sectionOf (bs.map (·.2.searchResult)))

theorem Joined.sections_others (h : Joined w qs bs) :
    (sectionsOf bs).filter (some ·.heading ≠ (qs.take w.settings.maxSubQuestions)[i]?) =
      ((others i bs).filter
        (some ·.1.subQuestion ≠ (qs.take w.settings.maxSubQuestions)[i]?)).map
        fun x => sectionOf (bs.map (·.2.searchResult)) x.2.summary := by
  rw [sectionsOf, List.map_map, List.filter_map, others, List.filter_filter]
  refine congrArg _ (List.filter_congr fun x hx => ?_)
  have hheading : x.2.summary.subQuestion = x.1.subQuestion :=
    x.2.same.trans (h.researched x hx).subQuestion
  by_cases hi : x.1.index = i
  · simp [sectionOf, hheading, hi, ← hi ▸ h.heading hx]
  · simp [sectionOf, hheading, hi]

/-- Sections with the heading of another branch are the same, up to the order of
    the bullets where several branches share a sub-question. -/
theorem World.SameBut.sections (h : w.SameBut w' i) (hbs : Joined w qs bs) (hbs' : Joined w' qs bs') :
    ∃ ss ss',
      ((sectionsOf bs).filter (some ·.heading ≠ (qs.take w.settings.maxSubQuestions)[i]?)).Perm ss ∧
      ((sectionsOf bs').filter (some ·.heading ≠ (qs.take w.settings.maxSubQuestions)[i]?)).Perm ss' ∧
      List.Forall₂ (fun a b => a.SameUpToOrder b ∧
        ((qs.take w.settings.maxSubQuestions).count a.heading ≤ 1 → a = b)) ss ss' := by
  have hothers := h.perm_others hbs hbs'
  have hsections' := hbs'.sections_others (i := i)
  rw [← h.settings] at hsections'
  refine ⟨_, _, .of_eq hbs.sections_others,
    (List.Perm.of_eq hsections').trans ((hothers.symm.filter _).map _), ?_⟩
  rw [List.forall₂_map_left_iff, List.forall₂_map_right_iff, List.forall₂_same]
  intro x hx
  obtain ⟨hx, hheading⟩ := List.mem_filter.mp hx
  obtain ⟨hx, -⟩ := List.mem_filter.mp hx
  have hsub : x.2.summary.subQuestion = x.1.subQuestion :=
    x.2.same.trans (hbs.researched x hx).subQuestion
  have hheading : some x.2.summary.subQuestion ≠ (qs.take w.settings.maxSubQuestions)[i]? := by
    rw [hsub]
    simpa using hheading
  have hsources := hbs.sourcesOf_others hheading
  have hsources' := hbs'.sourcesOf_others (i := i) (h.settings ▸ hheading)
  have hresults := hothers.map (·.2.searchResult)
  refine ⟨⟨rfl, rfl, ?_⟩, fun hsingle => ?_⟩
  · simp only [sectionOf, hsources, hsources']
    exact sourcesOf_perm hresults _
  · have hcount : (((others i bs).map (·.2.searchResult)).map (·.subQuestion)).count
        x.2.summary.subQuestion ≤ 1 := by
      rw [List.map_map]
      refine le_trans ?_ hsingle
      rw [← hbs.perm_subQuestions.count_eq]
      exact (List.filter_sublist.map _).count_le _
    simp only [sectionOf, hsources, hsources', sourcesOf_eq_of_perm hresults hcount]

end

/-! ## Runs of the two worlds -/

theorem Completion.sameBeside {w w' : World} {i : Nat} (h : w.SameBut w' i) {question : Str}
    (k : Completion w question) (k' : Completion w' question) :
    let sent := k.decomposed.subQuestions.take w.settings.maxSubQuestions
    k.state.SameBeside k'.state i sent[i]? (sent[i]?.bind fun q => w.branchEntry ⟨q, i⟩)
      (sent[i]?.bind fun q => w'.branchEntry ⟨q, i⟩) fun q => sent.count q ≤ 1 := by
  obtain ⟨hdecomposed, hentry⟩ :
      k.decomposed = k'.decomposed ∧ k.decomposeEntry = k'.decomposeEntry := by
    have hdecomposes := k.decomposes
    rw [h.settings, h.decomposeCall, k'.decomposes] at hdecomposes
    exact (Prod.mk.inj (Except.ok.inj hdecomposes)).imp Eq.symm Eq.symm
  have hjoined := k'.joined
  rw [← hdecomposed] at hjoined
  have hothers := h.perm_others k.joined hjoined
  refine ⟨rfl, congrArg (fun d : DecomposedQuestion => some d.subQuestions) hdecomposed, ?_, ?_,
    h.sections k.joined hjoined⟩
  · have hresults := k.joined.searchResults_others (i := i)
    have hresults' := hjoined.searchResults_others (i := i)
    simp only [Completion.state, Completion.reporterState, hresults, hresults']
    exact hothers.map _
  · have hentries' := hjoined.entry_perm (i := i)
    rw [← h.settings] at hentries'
    refine ⟨[k.decomposeEntry] ++ (others i k.branches).filterMap (·.2.entry), ?_, ?_⟩
    · rw [k.dropLast_costLog, List.append_assoc]
      exact k.joined.entry_perm.append_left _
    · rw [k'.dropLast_costLog, ← hentry, List.append_assoc]
      exact (hentries'.trans ((hothers.symm.filterMap _).append_right _)).append_left _

/-- Whatever the searches and the model call of one branch do, and whatever the
    assembly is answered, the run fails with the same errors or not at all, and
    the states in which it can end are the same beside that branch: of the cost
    entries only the branch's own can differ, and that of the assembly. -/
theorem branch_isolated {w w' : World} {i : Nat} (h : w.SameBut w' i)
    (hmodels : validateModels w.settings = .ok ()) (question : Str) {limit : Nat}
    (hlimit : 4 < limit) :
    (∀ e, w.Ainvokes question limit (.error e) ↔ w'.Ainvokes question limit (.error e)) ∧
    ∀ s s', w.Ainvokes question limit (.ok s) → w'.Ainvokes question limit (.ok s') →
      ∃ qs, s.subQuestions = some qs ∧
        let sent := qs.take w.settings.maxSubQuestions
        s.SameBeside s' i sent[i]? (sent[i]?.bind fun q => w.branchEntry ⟨q, i⟩)
          (sent[i]?.bind fun q => w'.branchEntry ⟨q, i⟩) fun q => sent.count q ≤ 1 := by
  have hmodels' : validateModels w'.settings = .ok () := h.settings ▸ hmodels
  refine ⟨fun e => ⟨fun he => ?_, fun he => ?_⟩, fun s s' hs hs' => ?_⟩
  · exact ainvokes_of_raises hmodels' hlimit (h.raises (raises_of_ainvokes hmodels hlimit he))
  · exact ainvokes_of_raises hmodels hlimit (h.symm.raises (raises_of_ainvokes hmodels' hlimit he))
  · obtain ⟨k, rfl⟩ := exists_completion_of_ainvokes hs
    obtain ⟨k', rfl⟩ := exists_completion_of_ainvokes hs'
    exact ⟨_, rfl, k.sameBeside h k'⟩

omit [UnicodeData] in
/-- The sunny world, with the search of its second branch out of reach. -/
def deafWorld : World :=
  { sunnyWorld with
    branch := fun j =>
      if j = 1 then
        { sunnyWorld.branch j with tavily := fun _ _ => .error ⟨.other, lit "unreachable"⟩ }
      else sunnyWorld.branch j }

omit [UnicodeData] in
theorem sameBut_deafWorld : sunnyWorld.SameBut deafWorld 1 where
  settings := rfl
  decomposeCall := rfl
  branch j hj := by simp [deafWorld, hj]
  branchClients := rfl
  assembleClients := rfl

theorem sound_deafWorld (question : Str) : deafWorld.Sound question where
  models := validateModels_of_default rfl rfl
  decomposes := by
    refine ⟨_, ⟨_, rfl, rfl⟩, ⟨⟨_, rfl⟩, fun j _ => ?_, ⟨_, rfl⟩⟩⟩
    by_cases hj : j = 1 <;> simp only [deafWorld, hj] <;> exact ⟨_, rfl⟩

omit [UnicodeData] in
theorem branch_isolated_deafWorld :
    ∃ s s', @World.Ainvokes .basicLatin sunnyWorld (lit "question") recursionLimit (.ok s) ∧
      @World.Ainvokes .basicLatin deafWorld (lit "question") recursionLimit (.ok s') ∧
      ∃ qs, s.subQuestions = some qs ∧
        let sent := qs.take sunnyWorld.settings.maxSubQuestions
        s.SameBeside s' 1 sent[1]?
          (sent[1]?.bind fun q => @World.branchEntry .basicLatin sunnyWorld ⟨q, 1⟩)
          (sent[1]?.bind fun q => @World.branchEntry .basicLatin deafWorld ⟨q, 1⟩)
          fun q => sent.count q ≤ 1 := by
  obtain ⟨c, hreach, hdone⟩ := @exists_done_of_reaches .basicLatin sunnyWorld (lit "question")
    (@sound_sunnyWorld .basicLatin _) recursionLimit (by decide) _ .refl
  obtain ⟨c', hreach', hdone'⟩ := @exists_done_of_reaches .basicLatin deafWorld (lit "question")
    (@sound_deafWorld .basicLatin _) recursionLimit (by decide) _ .refl
  have hreturns := @ainvokes_of_done .basicLatin _ _ recursionLimit (by decide) c hreach hdone
  have hreturns' := @ainvokes_of_done .basicLatin _ _ recursionLimit (by decide) c' hreach' hdone'
  exact ⟨c.state, c'.state, hreturns, hreturns',
    (@branch_isolated .basicLatin sunnyWorld deafWorld 1 sameBut_deafWorld
      (@validateModels_of_default .basicLatin _ rfl rfl) (lit "question") recursionLimit
      (by decide)).2 _ _ hreturns hreturns'⟩

end ResearchSynthesis
