-- SUMMARY: Report names: what a slug is made of, and when two runs get the same path.
import ResearchSynthesis.Main

/-!
# Naming reports

The name of a report is the second in which the run started and the slug of its
question. Two runs share a path when both agree, and only then unless symbolic
links in the outputs directory make two names one file.
-/

namespace ResearchSynthesis
open Python

variable [UnicodeData]

/-! ## Slugs -/

omit [UnicodeData] in
theorem mem_dashRuns {inRun : Bool} {s : Str} {c : CodePoint} (h : c ∈ dashRuns inRun s) :
    isSlugChar c ∨ c = CodePoint.scalar '-' := by
  induction s generalizing inRun with
  | nil => cases h
  | cons d s ih =>
    rw [dashRuns] at h
    split at h
    · next hd =>
      rcases List.mem_cons.mp h with rfl | h
      · exact .inl hd
      · exact ih h
    · split at h
      · exact ih h
      · rcases List.mem_cons.mp h with rfl | h
        · exact .inr rfl
        · exact ih h

/-- A slug holds lower-case letters, digits and dashes. -/
theorem mem_slugify {text : Str} {c : CodePoint} (h : c ∈ slugify text) :
    isSlugChar c ∨ c = CodePoint.scalar '-' := by
  rw [slugify] at h
  split at h
  · have hslug := List.mem_of_mem_take (Str.mem_of_mem_stripBy h)
    exact mem_dashRuns (Str.mem_of_mem_stripBy hslug)
  · have hreport : ∀ c ∈ lit "report", isSlugChar c := by decide
    exact .inl (hreport c h)

/-! ## Names -/

theorem slash_notMem_reportName (question : Str) (now : DateTime) :
    CodePoint.scalar '/' ∉ reportName question now := by
  have hpadded (width n : Nat) : CodePoint.scalar '/' ∉ zeroPadded width n := by
    intro h
    obtain ⟨d, hd, hslash⟩ := isDigit_of_mem_zeroPadded h
    cases hslash
    revert hd
    decide
  have hslug : CodePoint.scalar '/' ∉ slugify question := by
    intro h
    rcases mem_slugify h with h | h
    · revert h
      decide
    · cases h
  simp only [reportName, DateTime.stamp, List.mem_append, not_or]
  exact ⟨⟨⟨⟨⟨⟨⟨⟨⟨hpadded _ _, hpadded _ _⟩, hpadded _ _⟩, by decide⟩, hpadded _ _⟩, hpadded _ _⟩,
    hpadded _ _⟩, by decide⟩, hslug⟩, by decide⟩

theorem length_reportName (question : Str) (now : DateTime) :
    (reportName question now).length = (slugify question).length + 19 := by
  simp only [reportName, List.length_append, DateTime.length_stamp]
  rw [show (lit "-").length = 1 from rfl, show (lit ".md").length = 3 from rfl]
  omega

/-- The name of a report is a direct child of the outputs directory. -/
theorem child_reportName (base : Path) (question : Str) (now : DateTime) :
    base.child (reportName question now) = base ++ [reportName question now] := by
  have hlength := length_reportName question now
  refine Path.child_of_plain (slash_notMem_reportName question now) ?_ ?_
  · intro h
    rw [h] at hlength
    exact absurd hlength (by simp)
  · intro h
    rw [h, show (lit ".").length = 1 from rfl] at hlength
    omega

theorem reportName_eq_iff {q q' : Str} {t t' : DateTime} :
    reportName q t = reportName q' t' ↔ t.SameSecond t' ∧ slugify q = slugify q' := by
  constructor
  · intro h
    rw [reportName, reportName, List.append_left_inj] at h
    obtain ⟨hstamp, hslug⟩ := List.append_inj h (by simp [DateTime.length_stamp])
    exact ⟨DateTime.stamp_eq_iff.mp (List.append_inj' hstamp rfl).1, hslug⟩
  · rintro ⟨hsecond, hslug⟩
    rw [reportName, reportName, DateTime.stamp_eq_iff.mpr hsecond, hslug]

/-! ## Paths -/

theorem buildOutputPath_eq_ok_iff {question : Str} {now : DateTime} {outputsDir path : Path}
    {disk : Disk Exn} :
    buildOutputPath question now outputsDir disk = .ok path ↔
      ∃ base, disk.resolve outputsDir = .ok base ∧
        disk.resolve (base ++ [reportName question now]) = .ok path ∧ path.isRelativeTo base := by
  simp only [buildOutputPath, bind_eq_ok_iff, child_reportName]
  constructor
  · rintro ⟨base, hbase, candidate, hcandidate, h⟩
    split at h
    · cases h
    · next hinside =>
      cases h
      exact ⟨base, hbase, hcandidate, by simpa using hinside⟩
  · rintro ⟨base, hbase, hpath, hinside⟩
    exact ⟨base, hbase, path, hpath, by simp [hinside, pure, Except.pure]⟩

/-- The name a run would write is not a symbolic link. -/
def PlainName (question : Str) (now : DateTime) (outputsDir : Path) (disk : Disk Exn) : Prop :=
  ∀ base, disk.resolve outputsDir = .ok base →
    disk.resolve (base ++ [reportName question now]) = .ok (base ++ [reportName question now])

section
variable {q q' : Str} {t t' : DateTime} {outputsDir path path' : Path} {disk : Disk Exn}

theorem PlainName.buildOutputPath {base : Path} (h : PlainName q t outputsDir disk)
    (hbase : disk.resolve outputsDir = .ok base) :
    buildOutputPath q t outputsDir disk = .ok (base ++ [reportName q t]) :=
  buildOutputPath_eq_ok_iff.mpr
    ⟨base, hbase, h base hbase, List.isPrefixOf_iff_prefix.mpr (List.prefix_append _ _)⟩

theorem path_eq_of_same (h : buildOutputPath q t outputsDir disk = .ok path)
    (h' : buildOutputPath q' t' outputsDir disk = .ok path') (hsecond : t.SameSecond t')
    (hslug : slugify q = slugify q') : path = path' := by
  have hname : reportName q t = reportName q' t' := reportName_eq_iff.mpr ⟨hsecond, hslug⟩
  rw [buildOutputPath, hname] at h
  have hsame := h.symm.trans h'
  cases hsame
  rfl

theorem same_of_path_eq (h : buildOutputPath q t outputsDir disk = .ok path)
    (h' : buildOutputPath q' t' outputsDir disk = .ok path) (hplain : PlainName q t outputsDir disk)
    (hplain' : PlainName q' t' outputsDir disk) :
    t.SameSecond t' ∧ slugify q = slugify q' := by
  obtain ⟨base, hbase, hpath, -⟩ := buildOutputPath_eq_ok_iff.mp h
  obtain ⟨base', hbase', hpath', -⟩ := buildOutputPath_eq_ok_iff.mp h'
  rw [hplain base hbase] at hpath
  rw [hplain' base' hbase'] at hpath'
  rw [hbase] at hbase'
  cases hbase'
  cases hpath
  have hname := List.append_cancel_left (Except.ok.inj hpath')
  exact reportName_eq_iff.mp (List.singleton_inj.mp hname).symm
end

end ResearchSynthesis
