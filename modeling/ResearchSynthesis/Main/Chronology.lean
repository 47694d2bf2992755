-- SUMMARY: The order of names and dates on the disk is the order of the calls that wrote them.
import ResearchSynthesis.Main.Artifacts
import ResearchSynthesis.Main.Naming
import ResearchSynthesis.Python.Order

/-!
# Chronology

Nothing on the disk says when a report was written but its name, and of a row
only its date. As long as the clock does not go back, both come in the order of
the calls.
-/

namespace ResearchSynthesis
open Python

variable [UnicodeData]

/-! ## Names -/

/-- Whatever the questions, the name of the earlier report comes first. -/
theorem reportName_before (q q' : Str) {s t : DateTime} (h : s.Earlier t) :
    (reportName q s).Before (reportName q' t) := by
  unfold reportName
  simp only [List.append_assoc]
  exact (DateTime.stamp_before h).append (by rw [s.length_stamp, t.length_stamp]) _ _

theorem path_eq_of_plainName {q : Str} {t : DateTime} {outputsDir base path : Path}
    {disk : Disk Exn} (hplain : PlainName q t outputsDir disk)
    (hbase : disk.resolve outputsDir = .ok base)
    (hpath : buildOutputPath q t outputsDir disk = .ok path) : path = base ++ [reportName q t] := by
  rw [hplain.buildOutputPath hbase] at hpath
  exact (Except.ok.inj hpath).symm

/-- The paths name files of one directory, of which the first comes before the
    second in a sorted listing. -/
def ListedBefore (path path' : Path) : Prop :=
  ∃ dir name name', path = dir ++ [name] ∧ path' = dir ++ [name'] ∧ name.Before name'

theorem listedBefore_of_earlier {i j : Invocation} {disk : Disk Exn} {path path' : Path}
    (hdirs : i.outputsDir = j.outputsDir)
    (hplain : PlainName (questionFromArgv i.argv) i.now i.outputsDir disk)
    (hplain' : PlainName (questionFromArgv j.argv) j.now j.outputsDir disk)
    (hpath : i.target disk = .ok path) (hpath' : j.target disk = .ok path')
    (hearlier : i.now.Earlier j.now) : ListedBefore path path' := by
  obtain ⟨base, hbase, -, -⟩ := buildOutputPath_eq_ok_iff.mp hpath
  have hbase' : disk.resolve j.outputsDir = .ok base := hdirs ▸ hbase
  exact ⟨base, _, _, path_eq_of_plainName hplain hbase hpath,
    path_eq_of_plainName hplain' hbase' hpath', reportName_before _ _ hearlier⟩

/-! ## Rows -/

omit [UnicodeData] in
theorem exists_of_mem_forall₂ {α β : Type} {R : α → β → Prop} {xs : List α} {ys : List β}
    (h : List.Forall₂ R xs ys) {y : β} (hy : y ∈ ys) : ∃ x ∈ xs, R x y := by
  induction h with
  | nil => cases hy
  | @cons x _ _ _ hxy _ ih =>
    rcases List.mem_cons.mp hy with rfl | hy
    · exact ⟨x, by simp, hxy⟩
    · obtain ⟨x', hx', hr⟩ := ih hy
      exact ⟨x', List.mem_cons_of_mem _ hx', hr⟩

omit [UnicodeData] in
/-- What the elements that have a partner say about each other, their partners do. -/
theorem pairwise_reduceOption {α β : Type} {R : α → Option β → Prop} {P : α → α → Prop}
    {Q : β → β → Prop} (hPQ : ∀ x y a b, P x y → R x (some a) → R y (some b) → Q a b)
    {xs : List α} {ys : List (Option β)} (hR : List.Forall₂ R xs ys) (hP : xs.Pairwise P) :
    ys.reduceOption.Pairwise Q := by
  induction hR with
  | nil => exact .nil
  | @cons x y xs ys hxy hrest ih =>
    obtain ⟨hfirst, htail⟩ := List.pairwise_cons.mp hP
    cases y with
    | none =>
      rw [List.reduceOption_cons_of_none]
      exact ih htail
    | some a =>
      rw [List.reduceOption_cons_of_some, List.pairwise_cons]
      refine ⟨fun b hb => ?_, ih htail⟩
      obtain ⟨x', hx', hr⟩ := exists_of_mem_forall₂ hrest (List.reduceOption_mem_iff.mp hb)
      exact hPQ x x' a b (hfirst x' hx') hxy hr

section
variable {outputsDir costDoc : Path} {disk after : Disk Exn}
variable {calls : List (Invocation × MainOutcome)}

theorem Calls.outputsDir_eq (h : Calls outputsDir costDoc disk calls after) :
    ∀ c ∈ calls, c.1.outputsDir = outputsDir := by
  induction h with
  | nil _ => simp
  | cons houtputsDir _ _ _ ih => exact List.forall_mem_cons.mpr ⟨houtputsDir, ih⟩

/-- The second call is not made in an earlier second than the first. -/
def NotLater (c d : Invocation × MainOutcome) : Prop :=
  c.1.now.Earlier d.1.now ∨ c.1.now.SameSecond d.1.now

end

/-- In a history of calls whose clock does not go back, of two reports the one of
    the earlier second comes first in a sorted listing, and the dates of the cost
    document, read back, never go back. -/
theorem calls_chronological {outputsDir costDoc : Path} {disk after : Disk Exn}
    {calls : List (Invocation × MainOutcome)} {doc : Str}
    (h : Calls outputsDir costDoc disk calls after)
    (htargets : ∀ c ∈ calls, c.1.target disk ≠ .ok costDoc)
    (hwhole : ∀ c ∈ calls, ∀ kept e, c.1.costFile ≠ .failsWrite kept e)
    (hdoc : doc.encode = some (disk.content costDoc)) (hend : doc = [] ∨ EndsInNewline doc)
    (hplain : ∀ c ∈ calls, PlainName (questionFromArgv c.1.argv) c.1.now c.1.outputsDir disk)
    (hclock : calls.Pairwise NotLater) :
    (calls.Pairwise fun c d => c.1.now.SameSecond d.1.now ∨ ∀ path path',
      c.1.target disk = .ok path → d.1.target disk = .ok path' → ListedBefore path path') ∧
    ∃ records, (Str.decode (after.content costDoc)).map readCostDocument =
        some (readCostDocument doc ++ records) ∧
      records.Pairwise fun r r' => r.date = r'.date ∨ r.date.Before r'.date := by
  constructor
  · refine hclock.imp_of_mem fun {c d} hc hd hnotLater => ?_
    rcases hnotLater with hearlier | hsame
    · refine .inr fun path path' hpath hpath' => ?_
      have hdirs := (h.outputsDir_eq c hc).trans (h.outputsDir_eq d hd).symm
      exact listedBefore_of_earlier hdirs (hplain c hc) (hplain d hd) hpath hpath' hearlier
    · exact .inl hsame
  · obtain ⟨rows, hall, hread⟩ := h.exists_records htargets hwhole hdoc hend
    refine ⟨_, hread, List.pairwise_map.mpr (pairwise_reduceOption ?_ hall hclock)⟩
    intro c d row row' hnotLater hrow hrow'
    obtain ⟨settings, k, -, rfl⟩ := hrow.own row rfl
    obtain ⟨settings', k', -, rfl⟩ := hrow'.own row' rfl
    exact DateTime.date_eq_or_before hnotLater

omit [UnicodeData] in
/-- The call of `pageCall`, one day later. -/
def nextDayCall : Invocation :=
  { pageCall with now := { pageCall.now with day := 3, day_le := by decide } }

theorem target_nextDayCall :
    nextDayCall.target emptyDisk =
      .ok [lit "outputs", reportName (questionFromArgv pageCall.argv) nextDayCall.now] := by
  have hplain : PlainName (questionFromArgv nextDayCall.argv) nextDayCall.now nextDayCall.outputsDir
      emptyDisk := fun _ _ => rfl
  exact hplain.buildOutputPath rfl

theorem exists_calls_nextDayCall :
    ∃ o o', Calls [lit "outputs"] [lit "cost-breakdown.md"] emptyDisk
      [(pageCall, o), (nextDayCall, o')] o'.disk := by
  obtain ⟨o, ho⟩ := pageCall.outcomes_nonempty emptyDisk
  obtain ⟨o', ho'⟩ := nextDayCall.outcomes_nonempty o.disk
  rw [← pageCall.outcomesOn_of_accepts fun _ => rfl] at ho
  rw [← nextDayCall.outcomesOn_of_accepts fun _ => rfl] at ho'
  exact ⟨o, o', .cons rfl rfl ho (.cons rfl rfl ho' (.nil _))⟩

omit [UnicodeData] in
theorem calls_chronological_nextDayCall :
    ∃ path path', @Invocation.target .basicLatin pageCall emptyDisk = .ok path ∧
      @Invocation.target .basicLatin nextDayCall emptyDisk = .ok path' ∧
      ListedBefore path path' := by
  have hfirst := @target_pageCall .basicLatin
  have hsecond := @target_nextDayCall .basicLatin
  obtain ⟨o, o', hcalls⟩ := @exists_calls_nextDayCall .basicLatin
  have htargets : ∀ c ∈ [(pageCall, o), (nextDayCall, o')],
      @Invocation.target .basicLatin c.1 emptyDisk ≠ .ok [lit "cost-breakdown.md"] := by
    simp [hfirst, hsecond]
  have hearlier : pageCall.now.Earlier nextDayCall.now := by
    unfold DateTime.Earlier
    decide
  have hclock : [(pageCall, o), (nextDayCall, o')].Pairwise NotLater :=
    List.pairwise_pair.mpr (.inl hearlier)
  obtain ⟨hlisted, -⟩ := @calls_chronological .basicLatin _ _ _ _ _ [] hcalls htargets
    (by simp [nextDayCall, pageCall, tracedCall]) rfl (.inl rfl)
    (fun _ _ _ _ => rfl) hclock
  refine ⟨_, _, hfirst, hsecond, ?_⟩
  rcases List.pairwise_pair.mp hlisted with hsame | hbefore
  · have hday : pageCall.now.day ≠ nextDayCall.now.day := by decide
    exact absurd hsame.day hday
  · exact hbefore _ _ hfirst hsecond

end ResearchSynthesis
