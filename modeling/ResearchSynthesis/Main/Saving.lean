-- SUMMARY: What a run leaves on disk, whether it returns or raises.
import ResearchSynthesis.Main
import ResearchSynthesis.Observability.CostRow

/-!
# What a run leaves behind

A run writes two files, one after the other and without undoing the first. So a
run that raises late has left a trace; `runResearch_trace` says which.
-/

namespace ResearchSynthesis
open Python

variable [UnicodeData]

/-- The ways a call can end, with the disk it leaves behind. -/
inductive Outcome (call : ResearchCall) (outputsDir costDoc : Path) (disk : Disk Exn) :
    Except Exn (Path × ResearchState) × Disk Exn → Prop where
  | graphFailed {e : Exn} (hinvoke : call.ainvoke call.question recursionLimit = .error e) :
      Outcome call outputsDir costDoc disk (.error e, disk)
  | pathRefused {e : Exn}
      (hpath : buildOutputPath call.question call.now outputsDir disk = .error e) :
      Outcome call outputsDir costDoc disk (.error e, disk)
  | reportRefused {e : Exn} (hopen : call.reportFile = .refusesOpen e) :
      Outcome call outputsDir costDoc disk (.error e, disk)
  /-- The report's file is open, and truncated, when writing it fails. -/
  | reportFailed {e : Exn} {final : ResearchState} {path : Path} {kept : Nat}
      (hinvoke : call.ainvoke call.question recursionLimit = .ok final)
      (hpath : buildOutputPath call.question call.now outputsDir disk = .ok path)
      (hopen : ∀ e, call.reportFile ≠ .refusesOpen e) :
      Outcome call outputsDir costDoc disk
        (.error e, disk.store path (((savedReport final).encode.getD []).take kept))
  | costRefused {e : Exn} {final : ResearchState} {path : Path} {b : Bytes}
      (hinvoke : call.ainvoke call.question recursionLimit = .ok final)
      (hpath : buildOutputPath call.question call.now outputsDir disk = .ok path)
      (hopen : ∀ e, call.reportFile ≠ .refusesOpen e)
      (hreport : (savedReport final).encode = some b) :
      Outcome call outputsDir costDoc disk (.error e, disk.store path b)
  | costFailed {e : Exn} {final : ResearchState} {path : Path} {b : Bytes} {kept : Nat}
      (hinvoke : call.ainvoke call.question recursionLimit = .ok final)
      (hpath : buildOutputPath call.question call.now outputsDir disk = .ok path)
      (hopen : ∀ e, call.reportFile ≠ .refusesOpen e)
      (hreport : (savedReport final).encode = some b) :
      Outcome call outputsDir costDoc disk
        (.error e, (disk.store path b).store costDoc ((disk.store path b).content costDoc ++
          ((call.costRow final).text.encode.getD []).take kept))
  | saved {final : ResearchState} {path : Path} {b row : Bytes}
      (hinvoke : call.ainvoke call.question recursionLimit = .ok final)
      (hpath : buildOutputPath call.question call.now outputsDir disk = .ok path)
      (hopen : ∀ e, call.reportFile ≠ .refusesOpen e)
      (hreport : (savedReport final).encode = some b)
      (hrow : (call.costRow final).text.encode = some row) :
      Outcome call outputsDir costDoc disk
        (.ok (path, final),
          (disk.store path b).store costDoc ((disk.store path b).content costDoc ++ row))

theorem runResearch_outcome (call : ResearchCall) (outputsDir costDoc : Path)
    (disk : Disk Exn) :
    Outcome call outputsDir costDoc disk (runResearch call outputsDir costDoc disk) := by
  unfold runResearch
  cases hinvoke : call.ainvoke call.question recursionLimit with
  | error e => exact .graphFailed hinvoke
  | ok final =>
    cases hpath : buildOutputPath call.question call.now outputsDir disk with
    | error e => exact .pathRefused hpath
    | ok path =>
      simp only [Disk.writeText]
      rcases disk.writeAfter_cases path [] (savedReport final) unicodeEncodeError call.reportFile
        with ⟨b, hreport, hopen, heq⟩ | ⟨e, hopen, heq⟩ | ⟨e, kept, hopen, heq⟩
      · rw [heq, List.nil_append]
        simp only [writeCostRow, Disk.appendText]
        rcases (disk.store path b).writeAfter_cases costDoc ((disk.store path b).content costDoc)
          (call.costRow final).text unicodeEncodeError call.costFile
          with ⟨row, hrow, -, heq⟩ | ⟨e, -, heq⟩ | ⟨e, kept, -, heq⟩
        · rw [heq]
          exact .saved hinvoke hpath hopen hreport hrow
        · rw [heq]
          exact .costRefused hinvoke hpath hopen hreport
        · rw [heq]
          exact .costFailed hinvoke hpath hopen hreport
      · rw [heq]
        exact .reportRefused hopen
      · rw [heq]
        exact .reportFailed hinvoke hpath hopen

/-! ## The trace of a run -/

/-- The call fails before the report's file is open. -/
def FailsEarly (call : ResearchCall) (outputsDir : Path) (disk : Disk Exn) : Prop :=
  (∃ e, call.ainvoke call.question recursionLimit = .error e) ∨
  (∃ e, buildOutputPath call.question call.now outputsDir disk = .error e) ∨
  ∃ e, call.reportFile = .refusesOpen e

/-- The trace of a run that raised with the report's file open: the first bytes
    of the report at its path, or the whole report and then the first bytes of the
    row. -/
inductive LateTrace (call : ResearchCall) (outputsDir costDoc : Path) (disk : Disk Exn) :
    Disk Exn → Prop where
  | report {final : ResearchState} {path : Path} (kept : Nat)
      (hinvoke : call.ainvoke call.question recursionLimit = .ok final)
      (hpath : buildOutputPath call.question call.now outputsDir disk = .ok path) :
      LateTrace call outputsDir costDoc disk
        (disk.store path (((savedReport final).encode.getD []).take kept))
  | row {final : ResearchState} {path : Path} {b : Bytes} (kept : Nat)
      (hinvoke : call.ainvoke call.question recursionLimit = .ok final)
      (hpath : buildOutputPath call.question call.now outputsDir disk = .ok path)
      (hreport : (savedReport final).encode = some b) :
      LateTrace call outputsDir costDoc disk
        ((disk.store path b).store costDoc ((disk.store path b).content costDoc ++
          ((call.costRow final).text.encode.getD []).take kept))

section
variable {call : ResearchCall} {outputsDir costDoc path : Path} {disk : Disk Exn}
variable {r : Except Exn (Path × ResearchState) × Disk Exn} {final : ResearchState}

theorem not_failsEarly (hinvoke : call.ainvoke call.question recursionLimit = .ok final)
    (hpath : buildOutputPath call.question call.now outputsDir disk = .ok path)
    (hopen : ∀ e, call.reportFile ≠ .refusesOpen e) : ¬FailsEarly call outputsDir disk := by
  rintro (⟨e, he⟩ | ⟨e, he⟩ | ⟨e, he⟩)
  · rw [hinvoke] at he
    cases he
  · rw [hpath] at he
    cases he
  · exact hopen e he

theorem Outcome.untouched (h : Outcome call outputsDir costDoc disk r)
    (hearly : FailsEarly call outputsDir disk) : (∃ e, r.1 = .error e) ∧ r.2 = disk := by
  cases h with
  | graphFailed _ => exact ⟨⟨_, rfl⟩, rfl⟩
  | pathRefused _ => exact ⟨⟨_, rfl⟩, rfl⟩
  | reportRefused _ => exact ⟨⟨_, rfl⟩, rfl⟩
  | reportFailed hinvoke hpath hopen => exact absurd hearly (not_failsEarly hinvoke hpath hopen)
  | costRefused hinvoke hpath hopen _ => exact absurd hearly (not_failsEarly hinvoke hpath hopen)
  | costFailed hinvoke hpath hopen _ => exact absurd hearly (not_failsEarly hinvoke hpath hopen)
  | saved hinvoke hpath hopen _ _ => exact absurd hearly (not_failsEarly hinvoke hpath hopen)

/-- A call that gets past the opening of the report's file has stored something there. -/
theorem Outcome.stored (h : Outcome call outputsDir costDoc disk r)
    (hlate : ¬FailsEarly call outputsDir disk)
    (hpath : buildOutputPath call.question call.now outputsDir disk = .ok path) :
    r.2.files path ≠ none := by
  have hkept {d : Disk Exn} (b : Bytes) (h : d.files path ≠ none) :
      (d.store costDoc b).files path ≠ none := by
    by_cases heq : path = costDoc
    · simp [heq]
    · simpa [heq] using h
  cases h with
  | graphFailed hinvoke => exact absurd (.inl ⟨_, hinvoke⟩) hlate
  | pathRefused hpath => exact absurd (.inr (.inl ⟨_, hpath⟩)) hlate
  | reportRefused hopen => exact absurd (.inr (.inr ⟨_, hopen⟩)) hlate
  | reportFailed _ hpath' _ =>
    cases hpath'.symm.trans hpath
    simp
  | costRefused _ hpath' _ _ =>
    cases hpath'.symm.trans hpath
    simp
  | costFailed _ hpath' _ _ =>
    cases hpath'.symm.trans hpath
    exact hkept _ (by simp)
  | saved _ hpath' _ _ _ =>
    cases hpath'.symm.trans hpath
    exact hkept _ (by simp)

theorem Outcome.lateTrace (h : Outcome call outputsDir costDoc disk r)
    (hlate : ¬FailsEarly call outputsDir disk) {e : Exn} (he : r.1 = .error e) :
    LateTrace call outputsDir costDoc disk r.2 := by
  cases h with
  | graphFailed hinvoke => exact absurd (.inl ⟨_, hinvoke⟩) hlate
  | pathRefused hpath => exact absurd (.inr (.inl ⟨_, hpath⟩)) hlate
  | reportRefused hopen => exact absurd (.inr (.inr ⟨_, hopen⟩)) hlate
  | reportFailed hinvoke hpath _ => exact .report _ hinvoke hpath
  | @costRefused _ _ _ b hinvoke hpath _ hreport =>
    have htrace : LateTrace call outputsDir costDoc disk _ := .report b.length hinvoke hpath
    rw [hreport, Option.getD_some, List.take_length] at htrace
    exact htrace
  | costFailed hinvoke hpath _ hreport => exact .row _ hinvoke hpath hreport
  | saved _ _ _ _ _ => cases he

theorem Outcome.saved_of_ok (h : Outcome call outputsDir costDoc disk r)
    (hok : r.1 = .ok (path, final)) :
    call.ainvoke call.question recursionLimit = .ok final ∧
      buildOutputPath call.question call.now outputsDir disk = .ok path ∧
      ∃ b row, (savedReport final).encode = some b ∧ (call.costRow final).text.encode = some row ∧
        r.2 = (disk.store path b).store costDoc ((disk.store path b).content costDoc ++ row) := by
  cases h with
  | graphFailed _ | pathRefused _ | reportRefused _ | reportFailed _ _ _ | costRefused _ _ _ _
  | costFailed _ _ _ _ => cases hok
  | saved hinvoke hpath _ hreport hrow =>
    cases hok
    exact ⟨hinvoke, hpath, _, _, hreport, hrow, rfl⟩

omit [UnicodeData] in
theorem encodable_costRow_text :
    (call.costRow final).text.Encodable ↔ call.question.Encodable := by
  rw [CostRow.encodable_text]
  exact and_iff_right call.now.encodable_date

/-- Nothing stops a run whose question and report can be encoded. -/
theorem runResearch_of_encodable
    (hinvoke : call.ainvoke call.question recursionLimit = .ok final)
    (hpath : buildOutputPath call.question call.now outputsDir disk = .ok path)
    (hreportFile : call.reportFile = .accepts) (hcostFile : call.costFile = .accepts)
    (hquestion : call.question.Encodable) (hreport : (savedReport final).Encodable) :
    ∃ b row, (savedReport final).encode = some b ∧ (call.costRow final).text.encode = some row ∧
      runResearch call outputsDir costDoc disk =
        (.ok (path, final),
          (disk.store path b).store costDoc ((disk.store path b).content costDoc ++ row)) := by
  obtain ⟨b, hb⟩ := Str.exists_encode_iff.mpr hreport
  obtain ⟨row, hrow⟩ := Str.exists_encode_iff.mpr (encodable_costRow_text.mpr hquestion)
  refine ⟨b, row, hb, hrow, ?_⟩
  simp [runResearch, hinvoke, hpath, hreportFile, hcostFile, Disk.writeText, writeCostRow,
    Disk.appendText, Disk.writeAfter, hb, hrow]

end

/-- A run that raises before the report's file is open leaves every file as it
    was; one that raises later leaves a `LateTrace`. A run that returns has
    stored the report, appended one row, and changed nothing else. -/
theorem runResearch_trace (call : ResearchCall) (outputsDir costDoc : Path) (disk : Disk Exn) :
    let r := runResearch call outputsDir costDoc disk
    (FailsEarly call outputsDir disk → (∃ e, r.1 = .error e) ∧ r.2 = disk) ∧
    (¬FailsEarly call outputsDir disk → ∀ e, r.1 = .error e →
      LateTrace call outputsDir costDoc disk r.2) ∧
    ∀ path final, r.1 = .ok (path, final) →
      call.ainvoke call.question recursionLimit = .ok final ∧
      buildOutputPath call.question call.now outputsDir disk = .ok path ∧
      ∃ b row, (savedReport final).encode = some b ∧ (call.costRow final).text.encode = some row ∧
        r.2.files costDoc = some ((disk.store path b).content costDoc ++ row) ∧
        (path ≠ costDoc → r.2.files path = some b ∧
          r.2.files costDoc = some (disk.content costDoc ++ row)) ∧
        ∀ p, p ≠ path → p ≠ costDoc → r.2.files p = disk.files p := by
  intro r
  have houtcome : Outcome call outputsDir costDoc disk r :=
    runResearch_outcome call outputsDir costDoc disk
  refine ⟨houtcome.untouched, fun hlate e => houtcome.lateTrace hlate, fun path final hok => ?_⟩
  obtain ⟨hinvoke, hpath, b, row, hreport, hrow, hafter⟩ := houtcome.saved_of_ok hok
  refine ⟨hinvoke, hpath, b, row, hreport, hrow, ?_, fun hne => ?_, fun p hp hcost => ?_⟩
  · simp [hafter]
  · simp [hafter, hne, Disk.content, Ne.symm hne]
  · simp [hafter, hp, hcost]

/-! ## A run that raises and leaves its report behind -/

omit [UnicodeData] in
/-- A call whose graph returns `final`. -/
def answeredCall (question : Str) (final : ResearchState) (costFile : FileAnswer Exn) :
    ResearchCall where
  question := question
  settings := keyedSettings
  ainvoke _ _ := .ok final
  now := ⟨2026, 1, 2, 3, 4, 5, 0, by decide, by decide, by decide, by decide, by decide,
    by decide, by decide⟩
  latencyS := 1
  reportFile := .accepts
  costFile := costFile

omit [UnicodeData] in
/-- A disk with no file and no symbolic link. -/
def emptyDisk : Disk Exn := ⟨fun _ => none, .ok⟩

omit [UnicodeData] in
theorem not_untouched_costDoc_refused :
    ¬ ∀ (call : ResearchCall) (outputsDir costDoc : Path) (disk : Disk Exn) (e : Exn),
      (@runResearch .basicLatin call outputsDir costDoc disk).1 = .error e →
      ∀ p : Path, p.isRelativeTo outputsDir →
        (@runResearch .basicLatin call outputsDir costDoc disk).2.files p = disk.files p := by
  intro h
  have hkept := h
    (answeredCall (lit "q") { finalReport := some (lit "report") }
      (.refusesOpen ⟨.osError, lit "Permission denied"⟩))
    [lit "outputs"] [lit "cost-breakdown.md"] emptyDisk _ rfl
    [lit "outputs", lit "20260102-030405-q.md"] (by decide)
  revert hkept
  decide

end ResearchSynthesis
