-- SUMMARY: The shape of a slug, and the path of a report: a direct child of the outputs directory under a safe name.
import ResearchSynthesis.Main.Naming
import ResearchSynthesis.Main.Saving
import ResearchSynthesis.Python.Words
import Mathlib.Data.List.Chain

/-!
# Slugs

`dashRuns` never writes two dashes in a row, and every later step takes a piece
of what it wrote: so the pieces have no doubled dash either, and the last strip
takes what dash the cut has left at the end. `SlugShape` is what is known of the
result; nothing of such a string is changed by another round.
-/

namespace ResearchSynthesis
open Python

/-- `[a-z0-9]+(-[a-z0-9]+)*` -/
def MatchesSlug (s : Str) : Prop :=
  ∃ words : List Str, words ≠ [] ∧ (∀ w ∈ words, w ≠ [] ∧ ∀ c ∈ w, isSlugChar c) ∧
    s = Str.join (lit "-") words

def isDash (c : CodePoint) : Bool := c = .scalar '-'

/-- The two characters are not both dashes. -/
def NotDashes (c d : CodePoint) : Prop := ¬ (isDash c ∧ isDash d)

instance (c d : CodePoint) : Decidable (NotDashes c d) := inferInstanceAs (Decidable (¬ _))

/-- Words of slug characters with single dashes between them. -/
structure SlugShape (s : Str) : Prop where
  chars : ∀ c ∈ s, isSlugChar c ∨ c = .scalar '-'
  single : s.IsChain NotDashes
  head : ∀ c ∈ s.head?, isDash c = false
  last : ∀ c ∈ s.getLast?, isDash c = false
  ne_nil : s ≠ []

/-! ## Slug characters -/

theorem isDash_eq_false_of_isSlugChar {c : CodePoint} (h : isSlugChar c) : isDash c = false := by
  by_contra hdash
  obtain rfl : c = .scalar '-' := by simpa [isDash] using hdash
  revert h
  decide

theorem isSpace_eq_false_of_isSlugChar {c : CodePoint} (h : isSlugChar c ∨ c = .scalar '-') :
    c.isSpace = false := by
  have hspaces : ∀ d ∈ CodePoint.whitespace, ¬ (isSlugChar d ∨ d = .scalar '-') := by decide
  by_contra hspace
  exact hspaces c (by simpa [CodePoint.isSpace] using hspace) h

variable [UnicodeData]

theorem lower_slugChar {c : CodePoint} (h : isSlugChar c ∨ c = .scalar '-') :
    Str.lower [c] = [c] := by
  cases c with
  | surrogate n => rfl
  | scalar c =>
    have hc : c.toNat < 0x80 ∧ ¬ (c.val ≥ 'A'.val ∧ c.val ≤ 'Z'.val) := by
      simp only [UInt32.le_iff_toNat_le, Char.toNat]
      rcases h with h | h
      · rcases Bool.or_eq_true_iff.mp h with hdigit | hsmall
        · obtain ⟨-, hle⟩ := Char.isDigit_iff_toNat.mp hdigit
          simp at hle ⊢
          omega
        · have hrange : (decide (c.val ≥ 'a'.val) && decide (c.val ≤ 'z'.val)) = true := hsmall
          simp only [Bool.and_eq_true, decide_eq_true_eq, UInt32.le_iff_toNat_le] at hrange
          simp at hrange ⊢
          omega
      · cases h
        decide
    have hlower : c.toLower = c := dif_neg hc.2
    simp [Str.lower, UnicodeData.lower_ascii c hc.1, hlower]

theorem lower_eq_self {s : Str} (h : ∀ c ∈ s, isSlugChar c ∨ c = .scalar '-') : s.lower = s := by
  induction s with
  | nil => rfl
  | cons c s ih =>
    have hcons : Str.lower (c :: s) = Str.lower [c] ++ Str.lower s := by simp [Str.lower]
    rw [hcons, lower_slugChar (h c (by simp)), ih fun d hd => h d (List.mem_cons_of_mem _ hd)]
    rfl

/-! ## Runs of other characters -/

omit [UnicodeData] in
/-- No two dashes in a row, and no dash first inside a run that has its own. -/
theorem isChain_dashRuns (inRun : Bool) (s : Str) : (dashRuns inRun s).IsChain NotDashes ∧
    (inRun → ∀ c ∈ (dashRuns inRun s).head?, isDash c = false) := by
  induction s generalizing inRun with
  | nil => exact ⟨.nil, by simp [dashRuns]⟩
  | cons c s ih =>
    rw [dashRuns]
    by_cases hc : isSlugChar c
    · have hdash := isDash_eq_false_of_isSlugChar hc
      rw [if_pos hc]
      refine ⟨(ih false).1.cons fun d _ h => ?_, fun _ d hd => ?_⟩
      · rw [hdash] at h
        cases h.1
      · rwa [← Option.some.inj hd]
    · rw [if_neg hc]
      cases inRun with
      | true => exact ih true
      | false =>
        refine ⟨(ih true).1.cons fun d hd h => ?_, by simp⟩
        rw [(ih true).2 rfl d hd] at h
        cases h.2

omit [UnicodeData] in
/-- Where every run is one dash, nothing is left to collapse. -/
theorem dashRuns_eq_self {inRun : Bool} {s : Str}
    (hchars : ∀ c ∈ s, isSlugChar c ∨ c = .scalar '-') (hsingle : s.IsChain NotDashes)
    (hrun : inRun → ∀ c ∈ s.head?, isDash c = false) : dashRuns inRun s = s := by
  induction s generalizing inRun with
  | nil => rfl
  | cons c s ih =>
    have htail := fun d hd => hchars d (List.mem_cons_of_mem c hd)
    rw [dashRuns]
    by_cases hc : isSlugChar c
    · rw [if_pos hc, ih htail hsingle.tail (by simp)]
    · have hdash : c = .scalar '-' := (hchars c (by simp)).resolve_left hc
      have hnext : ∀ d ∈ s.head?, isDash d = false := fun d hd => by
        by_contra h
        exact hsingle.rel_head? hd ⟨by rw [hdash]; rfl, by simpa using h⟩
      cases inRun with
      | true =>
        have := hrun rfl c rfl
        rw [hdash] at this
        cases this
      | false => rw [if_neg hc, if_neg (by simp), ih htail hsingle.tail fun _ => hnext, hdash]

/-! ## The shape of a slug -/

/-- A slug is what the last strip leaves of the cut, or the fallback. -/
theorem slugify_cases (text : Str) : slugify text = lit "report" ∨
    slugify text ≠ [] ∧ slugify text = Str.stripBy (· = .scalar '-')
      (((dashRuns false text.strip.lower).stripBy (· = .scalar '-')).take slugMax) := by
  rw [slugify]
  by_cases hcut : Str.stripBy (· = .scalar '-')
      (((dashRuns false text.strip.lower).stripBy (· = .scalar '-')).take slugMax) = []
  · exact .inl (if_neg (not_not.mpr hcut))
  · exact .inr ⟨by simp [hcut], if_pos hcut⟩

omit [UnicodeData] in
theorem isChain_stripBy {p : CodePoint → Bool} {s : Str} (h : s.IsChain NotDashes) :
    (s.stripBy p).IsChain NotDashes := by
  obtain ⟨front, back, hsplit⟩ := Str.isInfix_stripBy p s
  rw [← hsplit] at h
  exact h.left_of_append.right_of_append

theorem slugify_shape (text : Str) : SlugShape (slugify text) := by
  rcases slugify_cases text with h | ⟨hne, h⟩
  · rw [h]
    exact ⟨by decide, by decide, by decide, by decide, by decide⟩
  · have hrun := (isChain_dashRuns false text.strip.lower).1
    exact {
      chars := fun c => mem_slugify
      single := by rw [h]; exact isChain_stripBy ((isChain_stripBy hrun).take slugMax)
      head := fun c hc => Str.head?_stripBy (h ▸ hc)
      last := fun c hc => Str.getLast?_stripBy (h ▸ hc)
      ne_nil := hne }

theorem length_slugify_le (text : Str) : (slugify text).length ≤ slugMax := by
  rcases slugify_cases text with h | ⟨-, h⟩
  · rw [h]
    decide
  · rw [h]
    refine (Str.isInfix_stripBy _ _).length_le.trans ?_
    rw [List.length_take]
    exact min_le_left _ _

theorem slugify_eq_self {s : Str} (h : SlugShape s) (hlength : s.length ≤ slugMax) :
    slugify s = s := by
  have hstrip : s.strip = s := by
    refine Str.stripBy_eq_self (fun c hc => ?_) fun c hc => ?_
    · exact isSpace_eq_false_of_isSlugChar (h.chars c (List.mem_of_mem_head? hc))
    · exact isSpace_eq_false_of_isSlugChar (h.chars c (List.mem_of_getLast? hc))
  have hdashes : s.stripBy (· = .scalar '-') = s := Str.stripBy_eq_self h.head h.last
  have hruns : dashRuns false s = s := dashRuns_eq_self h.chars h.single (by simp)
  simp only [slugify, hstrip, lower_eq_self h.chars, hruns, hdashes, List.take_of_length_le hlength]
  rw [if_pos h.ne_nil]

omit [UnicodeData] in
/-- One more slug character in front: of nothing, of a slug, or of a dash and a slug. -/
theorem MatchesSlug.cons {c : CodePoint} {s : Str} (hc : isSlugChar c)
    (hs : s = [] ∨ MatchesSlug s ∨ ∃ r, s = .scalar '-' :: r ∧ MatchesSlug r) :
    MatchesSlug (c :: s) := by
  rcases hs with rfl | ⟨words, hne, hwords, rfl⟩ | ⟨r, rfl, words, hne, hwords, rfl⟩
  · exact ⟨[[c]], by simp, by simpa using hc, rfl⟩
  · obtain ⟨w, ws, rfl⟩ := List.exists_cons_of_ne_nil hne
    have hw := hwords w (by simp)
    refine ⟨(c :: w) :: ws, by simp, ?_, by cases ws <;> simp⟩
    rw [List.forall_mem_cons] at hwords ⊢
    exact ⟨⟨by simp, by simpa using ⟨hc, hw.2⟩⟩, hwords.2⟩
  · obtain ⟨w, ws, rfl⟩ := List.exists_cons_of_ne_nil hne
    refine ⟨[c] :: w :: ws, by simp, ?_, by simp [lit]⟩
    rw [List.forall_mem_cons]
    exact ⟨by simpa using hc, hwords⟩

omit [UnicodeData] in
theorem matchesSlug_cases {s : Str} (hchars : ∀ c ∈ s, isSlugChar c ∨ c = .scalar '-')
    (hsingle : s.IsChain NotDashes) (hlast : ∀ c ∈ s.getLast?, isDash c = false) :
    s = [] ∨ MatchesSlug s ∨ ∃ r, s = .scalar '-' :: r ∧ MatchesSlug r := by
  induction s with
  | nil => exact .inl rfl
  | cons c s ih =>
    have htail := ih (fun d hd => hchars d (List.mem_cons_of_mem c hd)) hsingle.tail
      fun d hd => hlast d (by rw [List.getLast?_cons, Option.mem_def.mp hd]; rfl)
    rcases hchars c (by simp) with hc | rfl
    · exact .inr (.inl (.cons hc htail))
    · -- neither is the dash the last character, nor is there a dash behind it
      rcases htail with rfl | hs | ⟨r, rfl, -⟩
      · cases hlast _ rfl
      · exact .inr (.inr ⟨s, rfl, hs⟩)
      · exact absurd ⟨rfl, rfl⟩ (hsingle.rel_head? rfl)

omit [UnicodeData] in
/-- A string of that shape is its words with dashes between them. -/
theorem SlugShape.matchesSlug {s : Str} (h : SlugShape s) : MatchesSlug s := by
  rcases matchesSlug_cases h.chars h.single h.last with hnil | hmatch | ⟨r, rfl, -⟩
  · exact absurd hnil h.ne_nil
  · exact hmatch
  · cases h.head _ rfl

/-! ## The report's path -/

/-- Where the outputs directory resolves and the name in it is no symbolic link,
    the report's path is that directory followed by the name: the time stamp, a
    dash, the slug and `.md`. -/
theorem buildOutputPath_safe (question : Str) (now : DateTime) (outputsDir : Path)
    (disk : Disk Exn) (hplain : PlainName question now outputsDir disk) :
    (∀ base, disk.resolve outputsDir = .ok base →
      buildOutputPath question now outputsDir disk =
        .ok (base ++ [now.stamp ++ lit "-" ++ slugify question ++ lit ".md"])) ∧
    (∀ e, disk.resolve outputsDir = .error e →
      buildOutputPath question now outputsDir disk = .error e) ∧
    slugify question ≠ [] ∧ (slugify question).length ≤ 60 ∧ MatchesSlug (slugify question) ∧
    slugify (slugify question) = slugify question := by
  have hshape := slugify_shape question
  refine ⟨fun base hbase => ?_, fun e he => ?_, hshape.ne_nil, length_slugify_le question,
    hshape.matchesSlug, slugify_eq_self hshape (length_slugify_le question)⟩
  · exact PlainName.buildOutputPath hplain hbase
  · simp [buildOutputPath, he, bind, Except.bind]

omit [UnicodeData] in
/-- A question made of path components and a null character. -/
theorem buildOutputPath_safe_traversal :
    let question := lit "../../Etc\x00/passwd"
    let now := (answeredCall question {} .accepts).now
    @buildOutputPath .basicLatin question now [lit "outputs"] emptyDisk =
        .ok [lit "outputs",
          now.stamp ++ lit "-" ++ @slugify .basicLatin question ++ lit ".md"] ∧
      MatchesSlug (@slugify .basicLatin question) := by
  intro question now
  obtain ⟨hpath, -, -, -, hmatch, -⟩ :=
    @buildOutputPath_safe .basicLatin question now [lit "outputs"] emptyDisk fun base hbase => rfl
  exact ⟨hpath _ rfl, hmatch⟩

end ResearchSynthesis
