-- SUMMARY: A sequence of runs on one outputs directory: which reports are still there at the end.
import ResearchSynthesis.Main.Naming
import ResearchSynthesis.Main.Saving

/-!
# Sequences of runs

`write_text` truncates silently, so a report survives exactly as long as no
later run writes another report to its path.
-/

namespace ResearchSynthesis
open Python

variable [UnicodeData]

/-- A run that returned, with what it returned. -/
structure SavedRun where
  call : ResearchCall
  path : Path
  final : ResearchState

/-- The runs return one after the other, each on the disk that the one before
    it left. -/
inductive Runs (outputsDir costDoc : Path) : Disk Exn → List SavedRun → Disk Exn → Prop where
  | nil (disk : Disk Exn) : Runs outputsDir costDoc disk [] disk
  | cons {d d' d'' : Disk Exn} {s : SavedRun} {ss : List SavedRun}
      (hrun : runResearch s.call outputsDir costDoc d = (.ok (s.path, s.final), d'))
      (hruns : Runs outputsDir costDoc d' ss d'') :
      Runs outputsDir costDoc d (s :: ss) d''

omit [UnicodeData] in
/-- The returned path holds the run's own report. -/
def SavedRun.Kept (s : SavedRun) (disk : Disk Exn) : Prop :=
  ∃ b, (savedReport s.final).encode = some b ∧ disk.files s.path = some b

section
variable {outputsDir costDoc : Path} {d d' : Disk Exn} {s t : SavedRun} {ss : List SavedRun}

theorem savedRun_disk (h : runResearch s.call outputsDir costDoc d = (.ok (s.path, s.final), d')) :
    buildOutputPath s.call.question s.call.now outputsDir d = .ok s.path ∧
      ∃ b row, (savedReport s.final).encode = some b ∧
        (s.call.costRow s.final).text.encode = some row ∧
        d' = (d.store s.path b).store costDoc ((d.store s.path b).content costDoc ++ row) := by
  have houtcome := runResearch_outcome s.call outputsDir costDoc d
  rw [h] at houtcome
  obtain ⟨-, hpath, hdisk⟩ := houtcome.saved_of_ok rfl
  exact ⟨hpath, hdisk⟩

/-- Every run of a sequence has its path from the disk before the sequence. -/
theorem Runs.buildOutputPath_eq (h : Runs outputsDir costDoc d ss d') (hs : s ∈ ss) :
    buildOutputPath s.call.question s.call.now outputsDir d = .ok s.path := by
  induction h with
  | nil _ => cases hs
  | cons hrun _ ih =>
    obtain ⟨hpath, b, row, -, -, rfl⟩ := savedRun_disk hrun
    rcases List.mem_cons.mp hs with rfl | hs
    · exact hpath
    · exact ih hs

theorem Runs.files_eq (h : Runs outputsDir costDoc d ss d') {p : Path} (hcost : p ≠ costDoc)
    (hfresh : ∀ s ∈ ss, s.path ≠ p) : d'.files p = d.files p := by
  induction h with
  | nil _ => rfl
  | @cons _ _ _ s _ hrun _ ih =>
    obtain ⟨-, b, row, -, -, rfl⟩ := savedRun_disk hrun
    have hne : p ≠ s.path := Ne.symm (hfresh s List.mem_cons_self)
    rw [ih fun s hs => hfresh s (List.mem_cons_of_mem _ hs), Disk.store_files_of_ne _ _ hcost,
      Disk.store_files_of_ne _ _ hne]

/-- The cost document only grows while no report is written over it. -/
theorem Runs.content_costDoc (h : Runs outputsDir costDoc d ss d')
    (hfresh : ∀ s ∈ ss, s.path ≠ costDoc) :
    d.content costDoc <+: d'.content costDoc := by
  induction h with
  | nil _ => exact List.prefix_rfl
  | @cons d _ _ s _ hrun _ ih =>
    obtain ⟨-, b, row, -, -, rfl⟩ := savedRun_disk hrun
    have hne : costDoc ≠ s.path := Ne.symm (hfresh s List.mem_cons_self)
    have hkept : (d.store s.path b).content costDoc = d.content costDoc := by
      simp [Disk.content, hne]
    have hrest := ih fun s hs => hfresh s (List.mem_cons_of_mem _ hs)
    rw [hkept] at hrest
    simp only [Disk.content, Disk.store_files_self, Option.getD_some] at hrest ⊢
    exact (List.prefix_append _ _).trans hrest

/-- What is left of a report once later runs have returned. -/
theorem Runs.kept_iff (h : Runs outputsDir costDoc d ss d') :
    (∀ s ∈ ss, s.Kept d') ↔
      (∀ s ∈ ss, s.path ≠ costDoc) ∧
      ss.Pairwise fun s t => s.path = t.path → savedReport s.final = savedReport t.final := by
  induction h with
  | nil _ => simp
  | @cons d d' d'' s ss hrun hruns ih =>
    obtain ⟨-, b, row, hreport, hrow, rfl⟩ := savedRun_disk hrun
    rw [List.forall_mem_cons, List.forall_mem_cons, List.pairwise_cons, ih]
    constructor
    · rintro ⟨⟨b', hb', hkept⟩, hcosts, hpairs⟩
      cases hreport.symm.trans hb'
      refine ⟨⟨fun hcost => ?_, hcosts⟩, fun t ht hpath => ?_, hpairs⟩
      · -- the row appended right after the report is still there
        have hgrown := hruns.content_costDoc hcosts
        rw [hcost] at hkept
        simp only [Disk.content, hcost, Disk.store_files_self, Option.getD_some, hkept] at hgrown
        have hlength := hgrown.length_le
        rw [List.length_append] at hlength
        have hnone : row = [] := List.eq_nil_of_length_eq_zero (by omega)
        rw [hnone] at hrow
        exact CostRow.text_ne_nil _ (Str.encode_injective hrow (rfl : Str.encode [] = some []))
      · obtain ⟨b', hb', hkept'⟩ := ih.mpr ⟨hcosts, hpairs⟩ t ht
        rw [← hpath, hkept] at hkept'
        cases hkept'
        exact Str.encode_injective hreport hb'
    · rintro ⟨⟨hcost, hcosts⟩, hfirst, hpairs⟩
      refine ⟨?_, hcosts, hpairs⟩
      by_cases hlater : ∃ t ∈ ss, t.path = s.path
      · obtain ⟨t, ht, hpath⟩ := hlater
        obtain ⟨b', hb', hkept⟩ := ih.mpr ⟨hcosts, hpairs⟩ t ht
        exact ⟨b', by rw [hfirst t ht hpath.symm, hb'], by rw [← hpath, hkept]⟩
      · have hfresh : ∀ t ∈ ss, t.path ≠ s.path := fun t ht hpath => hlater ⟨t, ht, hpath⟩
        refine ⟨b, hreport, ?_⟩
        rw [hruns.files_eq hcost hfresh, Disk.store_files_of_ne _ _ hcost, Disk.store_files_self]

end

/-- After any sequence of runs, every path still holds the report of the run that
    returned it exactly when no report went to the cost document and any two runs
    that share a path saved the same report. Runs share a path when they start in
    the same second with questions of one slug, and, symbolic links apart, only
    then. -/
theorem reports_kept {outputsDir costDoc : Path} {disk after : Disk Exn} {ss : List SavedRun}
    (h : Runs outputsDir costDoc disk ss after) :
    ((∀ s ∈ ss, s.Kept after) ↔
      (∀ s ∈ ss, s.path ≠ costDoc) ∧
      ss.Pairwise fun s t => s.path = t.path → savedReport s.final = savedReport t.final) ∧
    ∀ s ∈ ss, ∀ t ∈ ss,
      (s.call.now.SameSecond t.call.now → slugify s.call.question = slugify t.call.question →
        s.path = t.path) ∧
      (PlainName s.call.question s.call.now outputsDir disk →
        PlainName t.call.question t.call.now outputsDir disk → s.path = t.path →
        s.call.now.SameSecond t.call.now ∧ slugify s.call.question = slugify t.call.question) := by
  refine ⟨h.kept_iff, fun s hs t ht => ⟨fun hsecond hslug => ?_, fun hplain hplain' hpath => ?_⟩⟩
  · exact path_eq_of_same (h.buildOutputPath_eq hs) (h.buildOutputPath_eq ht) hsecond hslug
  · have htpath := h.buildOutputPath_eq ht
    rw [← hpath] at htpath
    exact same_of_path_eq (h.buildOutputPath_eq hs) htpath hplain hplain'

/-! ## Two runs in one second -/

/-- A run that returned `report`. -/
def answeredRun (question report : Str) : SavedRun where
  call := answeredCall question { finalReport := some report } .accepts
  path := [lit "outputs", reportName question (answeredCall question { finalReport := some report } .accepts).now]
  final := { finalReport := some report }

theorem exists_runs_answered {answers : List (Str × Str)}
    (h : ∀ a ∈ answers, a.1.Encodable ∧ a.2.Encodable) {d : Disk Exn} (hresolve : d.resolve = .ok) :
    ∃ after, Runs [lit "outputs"] [lit "cost-breakdown.md"] d
      (answers.map fun a => answeredRun a.1 a.2) after := by
  induction answers generalizing d with
  | nil => exact ⟨d, .nil d⟩
  | cons a answers ih =>
    obtain ⟨⟨hquestion, hreport⟩, hrest⟩ := List.forall_mem_cons.mp h
    have hplain : PlainName a.1 (answeredRun a.1 a.2).call.now [lit "outputs"] d :=
      fun _ _ => by rw [hresolve]
    have hpath := hplain.buildOutputPath (by rw [hresolve])
    obtain ⟨b, row, -, -, hrun⟩ :=
      @runResearch_of_encodable _ (answeredRun a.1 a.2).call _ [lit "cost-breakdown.md"] _ _ _
        rfl hpath rfl rfl hquestion hreport
    have hresolve' : (((d.store (answeredRun a.1 a.2).path b).store [lit "cost-breakdown.md"]
        ((d.store (answeredRun a.1 a.2).path b).content [lit "cost-breakdown.md"] ++ row))).resolve =
          .ok := hresolve
    obtain ⟨after, hruns⟩ := ih hrest hresolve'
    exact ⟨after, .cons hrun hruns⟩

omit [UnicodeData] in
/-- Two reports of one second, on questions with different slugs. -/
theorem reports_kept_two_slugs :
    ∃ after, @Runs .basicLatin [lit "outputs"] [lit "cost-breakdown.md"] emptyDisk
      [@answeredRun .basicLatin (lit "q") (lit "old"),
        @answeredRun .basicLatin (lit "r") (lit "new")] after ∧
      ∀ s ∈ [@answeredRun .basicLatin (lit "q") (lit "old"),
        @answeredRun .basicLatin (lit "r") (lit "new")], s.Kept after := by
  obtain ⟨after, hruns⟩ := @exists_runs_answered .basicLatin
    [(lit "q", lit "old"), (lit "r", lit "new")] (by decide) emptyDisk rfl
  exact ⟨after, hruns, (@reports_kept .basicLatin _ _ _ _ _ hruns).1.mpr (by decide)⟩

omit [UnicodeData] in
/-- Two reports of one second, on questions that differ in case and punctuation
    only: the later one replaces the earlier one. -/
theorem not_kept_same_slug :
    ∃ after, @Runs .basicLatin [lit "outputs"] [lit "cost-breakdown.md"] emptyDisk
      [@answeredRun .basicLatin (lit "q") (lit "old"),
        @answeredRun .basicLatin (lit "Q?") (lit "new")] after ∧
      ¬ ∀ s ∈ [@answeredRun .basicLatin (lit "q") (lit "old"),
        @answeredRun .basicLatin (lit "Q?") (lit "new")], s.Kept after := by
  obtain ⟨after, hruns⟩ := @exists_runs_answered .basicLatin
    [(lit "q", lit "old"), (lit "Q?", lit "new")] (by decide) emptyDisk rfl
  refine ⟨after, hruns, fun hkept => ?_⟩
  have hpairs := (@Runs.kept_iff .basicLatin _ _ _ _ _ hruns).mp hkept
  revert hpairs
  decide

end ResearchSynthesis
