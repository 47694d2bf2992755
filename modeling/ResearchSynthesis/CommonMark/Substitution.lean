-- SUMMARY: Escaping brackets and percent-encoding parentheses, and what each leaves of backslash runs, autolinks and URIs.
import ResearchSynthesis.CommonMark.Escaping

/-!
# Substituting characters

Two substitutions that writers of Markdown make, character by character: a
backslash in front of every bracket, and a percent code for every parenthesis.
Neither looks at the backslashes that are already there, so both leave the runs
of backslashes as they find them.
-/

namespace CommonMark
open Python

/-! ## Substitutions in general -/

/-- `g` leaves `c` alone and makes it out of no other character. -/
structure Fixes (g : CodePoint → Str) (c : CodePoint) : Prop where
  self : g c = [c]
  only : ∀ d, c ∈ g d → d = c

/-- A fixed character of the substituted text stands for one of the text. -/
theorem Fixes.split {g : CodePoint → Str} {c : CodePoint} (hg : Fixes g c) {s a b : Str}
    (h : s.flatMap g = a ++ c :: b) :
    ∃ p q, s = p ++ c :: q ∧ a = p.flatMap g ∧ b = q.flatMap g := by
  induction s generalizing a with
  | nil => simp at h
  | cons d s ih =>
    rw [List.flatMap_cons] at h
    by_cases hd : d = c
    · subst hd
      rw [hg.self, List.singleton_append] at h
      cases a with
      | nil => exact ⟨[], s, rfl, rfl, (List.cons.inj h).2.symm⟩
      | cons e a =>
        obtain ⟨rfl, hs⟩ := List.cons.inj h
        obtain ⟨p, q, rfl, rfl, rfl⟩ := ih hs
        exact ⟨_ :: p, q, rfl, by rw [List.flatMap_cons, hg.self]; rfl, rfl⟩
    · rcases List.append_eq_append_iff.mp h with ⟨a', rfl, ha'⟩ | ⟨c', hc', hsplit⟩
      · obtain ⟨p, q, rfl, rfl, rfl⟩ := ih ha'
        exact ⟨d :: p, q, rfl, List.flatMap_cons.symm, rfl⟩
      · cases c' with
        | nil =>
          obtain ⟨p, q, rfl, hp, rfl⟩ := ih (a := []) hsplit.symm
          exact ⟨d :: p, q, rfl, by rw [List.flatMap_cons, ← hp, hc']; simp, rfl⟩
        | cons e c' =>
          obtain ⟨rfl, -⟩ := List.cons.inj hsplit
          exact absurd (hg.only d (by rw [hc']; simp)) hd

/-- A substitution that writes no backslash at the end of anything leaves the
    runs of backslashes as they are. -/
theorem backslashRun_flatMap {g : CodePoint → Str} (hself : g (.scalar '\\') = [.scalar '\\'])
    (hlast : ∀ c, c ≠ .scalar '\\' → ∃ q d, g c = q ++ [d] ∧ d ≠ .scalar '\\') (s : Str) :
    backslashRun (s.flatMap g) = backslashRun s := by
  induction s using List.reverseRecOn with
  | nil => rfl
  | append_singleton s c ih =>
    rw [List.flatMap_append, List.flatMap_singleton]
    by_cases hc : c = .scalar '\\'
    · rw [hc, hself, backslashRun_append_backslash, backslashRun_append_backslash, ih]
    · obtain ⟨q, d, hgc, hd⟩ := hlast c hc
      rw [hgc, ← List.append_assoc, backslashRun_append_of_ne _ hd, backslashRun_append_of_ne _ hc]

theorem flatMap_eq_self {g : CodePoint → Str} {s : Str} (h : ∀ c ∈ s, g c = [c]) :
    s.flatMap g = s := by
  induction s with
  | nil => rfl
  | cons c s ih =>
    rw [List.flatMap_cons, h c (by simp), ih fun d hd => h d (List.mem_cons_of_mem _ hd)]
    rfl

/-! ## Escaping brackets -/

def escapeBracket (c : CodePoint) : Str := if isBracket c then [.scalar '\\', c] else [c]

/-- Put a backslash in front of every bracket. -/
def escapeBrackets (s : Str) : Str := s.flatMap escapeBracket

theorem escapeBracket_of_not_isBracket {c : CodePoint} (h : isBracket c = false) :
    escapeBracket c = [c] := by
  simp [escapeBracket, h]

theorem mem_escapeBracket {c d : CodePoint} (h : d ∈ escapeBracket c) :
    d = c ∨ d = .scalar '\\' := by
  rw [escapeBracket] at h
  split at h
  · exact (List.mem_pair.mp h).symm
  · exact .inl (List.mem_singleton.mp h)

theorem self_mem_escapeBracket (c : CodePoint) : c ∈ escapeBracket c := by
  rw [escapeBracket]
  split <;> simp

theorem mem_escapeBrackets_of_mem {s : Str} {c : CodePoint} (h : c ∈ s) : c ∈ escapeBrackets s :=
  List.mem_flatMap.mpr ⟨c, h, self_mem_escapeBracket c⟩

theorem mem_escapeBrackets {s : Str} {c : CodePoint} (h : c ∈ escapeBrackets s) :
    c ∈ s ∨ c = .scalar '\\' := by
  obtain ⟨d, hd, hc⟩ := List.mem_flatMap.mp h
  rcases mem_escapeBracket hc with rfl | hc
  · exact .inl hd
  · exact .inr hc

theorem fixes_escapeBracket {c : CodePoint} (h : isBracket c = false) (hc : c ≠ .scalar '\\') :
    Fixes escapeBracket c where
  self := escapeBracket_of_not_isBracket h
  only := fun _ hd => ((mem_escapeBracket hd).resolve_right hc).symm

theorem escapeBrackets_eq_self {s : Str} (h : ∀ c ∈ s, isBracket c = false) :
    escapeBrackets s = s :=
  flatMap_eq_self fun c hc => escapeBracket_of_not_isBracket (h c hc)

@[simp] theorem backslashRun_escapeBrackets (s : Str) :
    backslashRun (escapeBrackets s) = backslashRun s := by
  refine backslashRun_flatMap (by decide) (fun c hc => ?_) s
  rw [escapeBracket]
  split
  · exact ⟨[.scalar '\\'], c, rfl, hc⟩
  · exact ⟨[], c, rfl, hc⟩

/-- A bracket of the escaped text stands for one of the text, and the last
    backslash in front of it is the escape. -/
theorem split_escapeBrackets {s a b : Str} {c : CodePoint} (hc : isBracket c)
    (h : escapeBrackets s = a ++ c :: b) :
    ∃ p q, s = p ++ c :: q ∧ a = escapeBrackets p ++ [.scalar '\\'] := by
  have hslash : c ≠ .scalar '\\' := by
    rintro rfl
    cases hc
  induction s generalizing a with
  | nil => simp [escapeBrackets] at h
  | cons d s ih =>
    rw [escapeBrackets, List.flatMap_cons, ← escapeBrackets] at h
    by_cases hd : isBracket d
    · rw [escapeBracket, if_pos hd, List.cons_append, List.singleton_append] at h
      match a, h with
      | [], h => exact absurd (List.cons.inj h).1.symm hslash
      | [e], h =>
        obtain ⟨he, hs⟩ := List.cons.inj h
        obtain ⟨hdc, -⟩ := List.cons.inj hs
        exact ⟨[], s, by rw [hdc]; rfl, by rw [← he]; rfl⟩
      | e :: f :: a, h =>
        obtain ⟨he, hds⟩ := List.cons.inj h
        obtain ⟨rfl, hs⟩ := List.cons.inj hds
        obtain ⟨p, q, rfl, rfl⟩ := ih hs
        exact ⟨_ :: p, q, rfl, by simp [← he, escapeBrackets, escapeBracket, hd]⟩
    · rw [escapeBracket, if_neg hd, List.singleton_append] at h
      cases a with
      | nil =>
        obtain ⟨rfl, -⟩ := List.cons.inj h
        exact absurd hc hd
      | cons e a =>
        obtain ⟨rfl, hs⟩ := List.cons.inj h
        obtain ⟨p, q, rfl, rfl⟩ := ih hs
        exact ⟨_ :: p, q, rfl, by simp [escapeBrackets, escapeBracket, hd]⟩

/-- Escaping works for the brackets with an even number of backslashes before
    them, and makes the others live. -/
theorem bracketsEscaped_escapeBrackets_iff {s : Str} :
    BracketsEscaped (escapeBrackets s) ↔
      ∀ p c q, s = p ++ c :: q → isBracket c → Even (backslashRun p) := by
  have hrun (p : Str) : Odd (backslashRun (escapeBrackets p ++ [.scalar '\\'])) ↔
      Even (backslashRun p) := by
    rw [backslashRun_append_backslash, backslashRun_escapeBrackets, Nat.odd_add_one,
      Nat.not_odd_iff_even]
  constructor
  · rintro h p c q rfl hc
    refine (hrun p).mp (h _ c (escapeBrackets q) ?_ hc)
    simp [escapeBrackets, escapeBracket, hc]
  · intro h a c b hsplit hc
    obtain ⟨p, q, hs, rfl⟩ := split_escapeBrackets hc hsplit
    exact (hrun p).mpr (h p c q hs hc)

/-! ## URIs and addresses with escaped brackets -/

def isUriCharacter (c : CodePoint) : Bool := !isAsciiControl c && c ∉ lit " <>"

theorem forall_mem_of_isScheme {s : Str} (h : isScheme s) :
    ∀ c ∈ s, isAsciiAlphanum c ∨ c ∈ lit "+.-" := by
  cases s with
  | nil => cases h
  | cons d s =>
    simp only [isScheme, Bool.and_eq_true, List.all_eq_true, Bool.or_eq_true,
      decide_eq_true_eq] at h
    intro c hc
    rcases List.mem_cons.mp hc with rfl | hc
    · left
      cases c with
      | scalar c =>
        have halpha : c.isAlpha := h.1.1.1
        simp [isAsciiAlphanum, Char.isAlphanum, halpha]
      | surrogate n => cases h.1.1.1
    · exact h.1.1.2 c hc

theorem not_mem_of_isScheme {s : Str} (h : isScheme s) {c : Char} (halpha : c.isAlphanum = false)
    (hc : CodePoint.scalar c ∉ lit "+.-") : .scalar c ∉ s := fun hmem => by
  rcases forall_mem_of_isScheme h _ hmem with h | h
  · simp [isAsciiAlphanum, halpha] at h
  · exact hc h

theorem isBracket_eq_false_of_isScheme {s : Str} (h : isScheme s) :
    ∀ c ∈ s, isBracket c = false := by
  intro c hc
  by_contra hb
  rw [Bool.not_eq_false, isBracket, Bool.or_eq_true, decide_eq_true_eq, decide_eq_true_eq] at hb
  rcases hb with rfl | rfl
  · exact not_mem_of_isScheme h (by decide) (by decide) hc
  · exact not_mem_of_isScheme h (by decide) (by decide) hc

theorem isAbsoluteUri_iff {s : Str} :
    isAbsoluteUri s ↔ ∃ scheme rest, s = scheme ++ .scalar ':' :: rest ∧ isScheme scheme ∧
      ∀ c ∈ rest, isUriCharacter c := by
  constructor
  · intro h
    rw [isAbsoluteUri] at h
    split at h
    · cases h
    · next d rest hdrop =>
      have hd : d = .scalar ':' := by
        have := List.head?_dropWhile_not (· ≠ CodePoint.scalar ':') s
        rw [hdrop] at this
        simpa using this
      rw [Bool.and_eq_true, List.all_eq_true] at h
      subst hd
      refine ⟨s.takeWhile (· ≠ .scalar ':'), rest, ?_, h.1, h.2⟩
      rw [← hdrop, List.takeWhile_append_dropWhile]
  · rintro ⟨scheme, rest, rfl, hscheme, hrest⟩
    have hcolon : ∀ c ∈ scheme, decide (c ≠ CodePoint.scalar ':') = true := fun c hc => by
      rw [decide_eq_true_eq]
      rintro rfl
      exact not_mem_of_isScheme hscheme (by decide) (by decide) hc
    rw [isAbsoluteUri, List.dropWhile_append_of_pos hcolon, List.takeWhile_append_of_pos hcolon]
    simpa [hscheme, isUriCharacter] using hrest

theorem isAbsoluteUri_escapeBrackets {s : Str} :
    isAbsoluteUri (escapeBrackets s) ↔ isAbsoluteUri s := by
  rw [isAbsoluteUri_iff, isAbsoluteUri_iff]
  constructor
  · rintro ⟨scheme, rest, hsplit, hscheme, hrest⟩
    obtain ⟨p, q, rfl, rfl, rfl⟩ := (fixes_escapeBracket (by decide) (by decide)).split hsplit
    have hp : escapeBrackets p = p := escapeBrackets_eq_self fun c hc =>
      isBracket_eq_false_of_isScheme hscheme c (mem_escapeBrackets_of_mem hc)
    exact ⟨p, q, rfl, hp ▸ hscheme, fun c hc => hrest c (mem_escapeBrackets_of_mem hc)⟩
  · rintro ⟨scheme, rest, rfl, hscheme, hrest⟩
    have hs : escapeBrackets scheme = scheme :=
      escapeBrackets_eq_self (isBracket_eq_false_of_isScheme hscheme)
    refine ⟨scheme, escapeBrackets rest, ?_, hscheme, fun c hc => ?_⟩
    · rw [escapeBrackets, List.flatMap_append, ← escapeBrackets, hs]
      rfl
    · rcases mem_escapeBrackets hc with hc | rfl
      · exact hrest c hc
      · decide

/-- A URI goes on past a closing bracket as long as its characters allow. -/
theorem isAbsoluteUri_append_bracket {s t : Str} :
    isAbsoluteUri (s ++ .scalar ']' :: t) ↔ isAbsoluteUri s ∧ ∀ c ∈ t, isUriCharacter c := by
  rw [isAbsoluteUri_iff, isAbsoluteUri_iff]
  constructor
  · rintro ⟨scheme, rest, hsplit, hscheme, hrest⟩
    have hbracket : CodePoint.scalar ']' ∉ scheme :=
      not_mem_of_isScheme hscheme (by decide) (by decide)
    rcases List.append_eq_append_iff.mp hsplit with ⟨a, rfl, ha⟩ | ⟨a, rfl, ha⟩
    · cases a with
      | nil => cases ha
      | cons e a =>
        obtain ⟨rfl, -⟩ := List.cons.inj ha
        simp at hbracket
    · cases a with
      | nil => cases ha
      | cons e a =>
        obtain ⟨rfl, rfl⟩ := List.cons.inj ha
        exact ⟨⟨scheme, a, rfl, hscheme, fun c hc => hrest c (by simp [hc])⟩,
          fun c hc => hrest c (by simp [hc])⟩
  · rintro ⟨⟨scheme, rest, rfl, hscheme, hrest⟩, ht⟩
    refine ⟨scheme, rest ++ .scalar ']' :: t, by simp, hscheme, fun c hc => ?_⟩
    rcases List.mem_append.mp hc with hc | hc
    · exact hrest c hc
    · rcases List.mem_cons.mp hc with rfl | hc
      · decide
      · exact ht c hc

theorem isBracket_eq_false_of_mem {c : CodePoint} {cs : Str} (hcs : ∀ d ∈ cs, isBracket d = false)
    (h : isAsciiAlphanum c ∨ c ∈ cs) : isBracket c = false := by
  rcases h with h | h
  · by_contra hb
    rw [Bool.not_eq_false, isBracket, Bool.or_eq_true, decide_eq_true_eq, decide_eq_true_eq] at hb
    rcases hb with rfl | rfl <;> cases h
  · exact hcs c h

theorem isBracket_eq_false_of_isDomainLabel {s : Str} (h : isDomainLabel s) :
    ∀ c ∈ s, isBracket c = false := by
  simp only [isDomainLabel, Bool.and_eq_true, List.all_eq_true, Bool.or_eq_true,
    decide_eq_true_eq] at h
  intro c hc
  have hlit : ∀ d ∈ lit "-", isBracket d = false := by decide
  refine isBracket_eq_false_of_mem hlit ?_
  exact (h.1.1.2 c hc).imp_right fun hdash => by rw [hdash]; decide

/-- A mail address holds no bracket. -/
theorem isBracket_eq_false_of_isEmailAddress {s : Str} (h : isEmailAddress s) :
    ∀ c ∈ s, isBracket c = false := by
  rw [isEmailAddress] at h
  split at h
  · cases h
  · next d domain hdrop =>
    have hd : d = .scalar '@' := by
      have := List.head?_dropWhile_not (· ≠ CodePoint.scalar '@') s
      rw [hdrop] at this
      simpa using this
    simp only [Bool.and_eq_true, List.all_eq_true, Bool.or_eq_true, decide_eq_true_eq] at h
    obtain ⟨⟨-, hmailbox⟩, hdomain⟩ := h
    intro c hc
    rw [← List.takeWhile_append_dropWhile (p := (· ≠ CodePoint.scalar '@')) (l := s), hdrop,
      List.mem_append, List.mem_cons] at hc
    rcases hc with hc | rfl | hc
    · exact isBracket_eq_false_of_mem (by decide) (hmailbox c hc)
    · rw [hd]
      rfl
    · by_cases hdot : c = .scalar '.'
      · rw [hdot]
        rfl
      · have hflat : c ∈ (domain.splitOnP (· = .scalar '.')).flatten := by
          rw [Str.flatten_splitOnP]
          simp [hc, hdot]
        obtain ⟨label, hlabel, hmem⟩ := List.mem_flatten.mp hflat
        exact isBracket_eq_false_of_isDomainLabel (hdomain label hlabel) c hmem

theorem isEmailAddress_escapeBrackets {s : Str} :
    isEmailAddress (escapeBrackets s) ↔ isEmailAddress s := by
  constructor
  · intro h
    rwa [escapeBrackets_eq_self fun c hc =>
      isBracket_eq_false_of_isEmailAddress h c (mem_escapeBrackets_of_mem hc)] at h
  · intro h
    rwa [escapeBrackets_eq_self (isBracket_eq_false_of_isEmailAddress h)]

theorem isAutolinkBody_escapeBrackets {s : Str} :
    isAutolinkBody (escapeBrackets s) ↔ isAutolinkBody s := by
  simp only [isAutolinkBody, Bool.or_eq_true, isAbsoluteUri_escapeBrackets,
    isEmailAddress_escapeBrackets]

/-- Only a URI is still the body of an autolink with a bracket in it. -/
theorem isAutolinkBody_append_bracket {s t : Str} :
    isAutolinkBody (s ++ .scalar ']' :: t) ↔ isAbsoluteUri s ∧ ∀ c ∈ t, isUriCharacter c := by
  rw [isAutolinkBody, Bool.or_eq_true, isAbsoluteUri_append_bracket, or_iff_left]
  intro h
  have := isBracket_eq_false_of_isEmailAddress h (.scalar ']') (by simp)
  cases this

/-! ## Autolinks in text with escaped brackets -/

theorem isSome_autolinkBody?_iff {s : Str} :
    (autolinkBody? s).isSome ↔ ∃ b q, s = b ++ .scalar '>' :: q ∧ (∀ c ∈ b, isAngle c = false) ∧
      isAutolinkBody b := by
  constructor
  · intro h
    rw [autolinkBody?] at h
    split at h
    · next hcond =>
      obtain ⟨hhead, hbody⟩ := hcond
      obtain ⟨q, hq⟩ := List.head?_eq_some_iff.mp hhead
      refine ⟨s.takeWhile (!isAngle ·), q, ?_, fun c hc => ?_, hbody⟩
      · rw [← hq, List.takeWhile_append_dropWhile]
      · simpa using List.mem_takeWhile_imp hc
    · cases h
  · rintro ⟨b, q, rfl, hb, hbody⟩
    have hangle : ∀ c ∈ b, (!isAngle c) = true := fun c hc => by rw [hb c hc]; rfl
    have hclose : (!isAngle (.scalar '>')) = false := by decide
    rw [autolinkBody?, List.dropWhile_append_of_pos hangle, List.takeWhile_append_of_pos hangle,
      List.dropWhile_cons_of_neg (by simp [hclose]), List.takeWhile_cons_of_neg (by simp [hclose]),
      List.append_nil, if_pos ⟨rfl, hbody⟩]
    rfl

theorem isAngle_escapeBrackets {s : Str} :
    (∀ c ∈ escapeBrackets s, isAngle c = false) ↔ ∀ c ∈ s, isAngle c = false := by
  constructor
  · exact fun h c hc => h c (mem_escapeBrackets_of_mem hc)
  · intro h c hc
    rcases mem_escapeBrackets hc with hc | rfl
    · exact h c hc
    · decide

theorem isSome_autolinkBody?_escapeBrackets {s : Str} :
    (autolinkBody? (escapeBrackets s)).isSome ↔ (autolinkBody? s).isSome := by
  rw [isSome_autolinkBody?_iff, isSome_autolinkBody?_iff]
  constructor
  · rintro ⟨b, q, hsplit, hb, hbody⟩
    obtain ⟨b, q, rfl, rfl, rfl⟩ := (fixes_escapeBracket (by decide) (by decide)).split hsplit
    exact ⟨b, q, rfl, isAngle_escapeBrackets.mp hb, isAutolinkBody_escapeBrackets.mp hbody⟩
  · rintro ⟨b, q, rfl, hb, hbody⟩
    refine ⟨escapeBrackets b, escapeBrackets q, ?_, isAngle_escapeBrackets.mpr hb,
      isAutolinkBody_escapeBrackets.mpr hbody⟩
    rw [escapeBrackets, List.flatMap_append]
    rfl

/-- In front of a closing bracket an autolink closes in the text, or the text is
    a URI that goes on to the first angle bracket after it. -/
theorem isSome_autolinkBody?_append_bracket {s t : Str} (ht : ∀ c ∈ t, isUriCharacter c ∨ isAngle c) :
    (autolinkBody? (escapeBrackets s ++ .scalar ']' :: t)).isSome ↔
      (autolinkBody? s).isSome ∨ (∀ c ∈ s, isAngle c = false) ∧ isAbsoluteUri s ∧
        t.find? isAngle = some (.scalar '>') := by
  rw [← isSome_autolinkBody?_escapeBrackets (s := s), isSome_autolinkBody?_iff,
    isSome_autolinkBody?_iff]
  constructor
  · rintro ⟨b, q, hsplit, hb, hbody⟩
    rcases List.append_eq_append_iff.mp hsplit with ⟨a, rfl, ha⟩ | ⟨a, ha, ha'⟩
    · cases a with
      | nil => cases ha
      | cons d a =>
        obtain ⟨rfl, rfl⟩ := List.cons.inj ha
        obtain ⟨huri, -⟩ := isAutolinkBody_append_bracket.mp hbody
        refine .inr ⟨isAngle_escapeBrackets.mp fun c hc => hb c (by simp [hc]),
          isAbsoluteUri_escapeBrackets.mp huri, ?_⟩
        rw [List.find?_eq_some_iff_append]
        exact ⟨rfl, a, q, rfl, fun c hc => by rw [hb c (by simp [hc])]; rfl⟩
    · cases a with
      | nil => cases ha'
      | cons d a =>
        obtain ⟨rfl, -⟩ := List.cons.inj ha'
        exact .inl ⟨b, a, ha, hb, hbody⟩
  · rintro (⟨b, q, hsplit, hb, hbody⟩ | ⟨hs, huri, hfind⟩)
    · exact ⟨b, q ++ .scalar ']' :: t, by rw [hsplit]; simp, hb, hbody⟩
    · obtain ⟨-, a, q, rfl, ha⟩ := List.find?_eq_some_iff_append.mp hfind
      have ha : ∀ c ∈ a, isAngle c = false := fun c hc => by simpa using ha c hc
      refine ⟨escapeBrackets s ++ .scalar ']' :: a, q, by simp, fun c hc => ?_,
        isAutolinkBody_append_bracket.mpr
          ⟨isAbsoluteUri_escapeBrackets.mpr huri, fun c hc => ?_⟩⟩
      · rcases List.mem_append.mp hc with hc | hc
        · exact isAngle_escapeBrackets.mpr hs c hc
        · rcases List.mem_cons.mp hc with rfl | hc
          · decide
          · exact ha c hc
      · exact (ht c (by simp [hc])).resolve_right (by simp [ha c hc])

/-- Escaping the brackets opens no autolink and closes none. -/
theorem opensAutolink_escapeBrackets {pre s rest : Str} (hpre : backslashRun pre = 0) :
    OpensAutolink pre (escapeBrackets s) rest ↔ ∃ p q, s = p ++ .scalar '<' :: q ∧
      escaped p = false ∧ (autolinkBody? (escapeBrackets q ++ rest)).isSome := by
  have hrun (p : Str) : escaped (pre ++ escapeBrackets p) = escaped p := by
    rw [escaped_append_of_run_zero hpre, escaped, backslashRun_escapeBrackets, escaped]
  constructor
  · rintro ⟨p, q, hsplit, hlive, hbody⟩
    obtain ⟨p, q, rfl, rfl, rfl⟩ := (fixes_escapeBracket (by decide) (by decide)).split hsplit
    exact ⟨p, q, rfl, by rw [← hrun]; exact hlive, hbody⟩
  · rintro ⟨p, q, rfl, hlive, hbody⟩
    refine ⟨escapeBrackets p, escapeBrackets q, ?_, by rw [hrun, hlive], hbody⟩
    rw [escapeBrackets, List.flatMap_append]
    rfl

/-! ## Encoding parentheses -/

def encodeParen (c : CodePoint) : Str :=
  if c = .scalar '(' then lit "%28" else if c = .scalar ')' then lit "%29" else [c]

/-- Percent-encode every parenthesis. -/
def encodeParens (s : Str) : Str := s.flatMap encodeParen

theorem encodeParen_of_ne {c : CodePoint} (hopen : c ≠ .scalar '(') (hclose : c ≠ .scalar ')') :
    encodeParen c = [c] := by
  simp [encodeParen, hopen, hclose]

theorem encodeParen_cases (c : CodePoint) :
    encodeParen c = lit "%28" ∧ c = .scalar '(' ∨ encodeParen c = lit "%29" ∧ c = .scalar ')' ∨
      encodeParen c = [c] ∧ c ≠ .scalar '(' ∧ c ≠ .scalar ')' := by
  by_cases hopen : c = .scalar '('
  · exact .inl ⟨by rw [hopen]; rfl, hopen⟩
  by_cases hclose : c = .scalar ')'
  · exact .inr (.inl ⟨by rw [hclose]; rfl, hclose⟩)
  · exact .inr (.inr ⟨encodeParen_of_ne hopen hclose, hopen, hclose⟩)

/-- A character of the encoded text is one of the text or part of a code. -/
theorem mem_encodeParens {s : Str} {c : CodePoint} (h : c ∈ encodeParens s) :
    c ∈ lit "%289" ∨ c ∈ s ∧ c ≠ .scalar '(' ∧ c ≠ .scalar ')' := by
  obtain ⟨d, hd, hc⟩ := List.mem_flatMap.mp h
  rcases encodeParen_cases d with ⟨heq, -⟩ | ⟨heq, -⟩ | ⟨heq, hopen, hclose⟩
  · rw [heq] at hc
    exact .inl ((by decide : ∀ e ∈ lit "%28", e ∈ lit "%289") c hc)
  · rw [heq] at hc
    exact .inl ((by decide : ∀ e ∈ lit "%29", e ∈ lit "%289") c hc)
  · rw [heq, List.mem_singleton] at hc
    subst hc
    exact .inr ⟨hd, hopen, hclose⟩

@[simp] theorem backslashRun_encodeParens (s : Str) :
    backslashRun (encodeParens s) = backslashRun s := by
  refine backslashRun_flatMap rfl (fun c hc => ?_) s
  rcases encodeParen_cases c with ⟨heq, -⟩ | ⟨heq, -⟩ | ⟨heq, -⟩
  · exact ⟨lit "%2", .scalar '8', heq, by decide⟩
  · exact ⟨lit "%2", .scalar '9', heq, by decide⟩
  · exact ⟨[], c, heq, hc⟩

/-- What holds of no parenthesis and of nothing in a percent code is found in
    the encoded text where it is found in the text. -/
theorem find?_encodeParens {p : CodePoint → Bool} (hparen : ∀ c ∈ lit "()", p c = false)
    (hcode : ∀ c ∈ lit "%289", p c = false) (s : Str) :
    (encodeParens s).find? p = s.find? p := by
  induction s with
  | nil => rfl
  | cons c s ih =>
    rw [encodeParens, List.flatMap_cons, ← encodeParens, List.find?_append, ih]
    rcases encodeParen_cases c with ⟨heq, rfl⟩ | ⟨heq, rfl⟩ | ⟨heq, -⟩
    · simp [heq, lit, hparen (.scalar '(') (by decide), hcode (.scalar '%') (by decide),
        hcode (.scalar '2') (by decide), hcode (.scalar '8') (by decide)]
    · simp [heq, lit, hparen (.scalar ')') (by decide), hcode (.scalar '%') (by decide),
        hcode (.scalar '2') (by decide), hcode (.scalar '9') (by decide)]
    · cases hc : p c <;> simp [heq, hc]

end CommonMark
