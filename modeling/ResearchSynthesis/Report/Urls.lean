-- SUMMARY: Which URLs the allowlist lets through, and when one of them stays inside its own link.
import ResearchSynthesis.Report.Links

/-!
# Accepted URLs

`safeUrl` drops whitespace, tests the scheme, and encodes parentheses. What it
leaves alone are backslashes and the control characters that are no whitespace:
a URL with one of these in the wrong place does not end where the reporter
closes the link.
-/

namespace ResearchSynthesis
open Python CommonMark

/-! ## Schemes -/

/-- ASCII letters in lower case, and any other character as it is. -/
def asciiLower : CodePoint → CodePoint
  | .scalar c => if c.toNat < 0x80 then .scalar c.toLower else .scalar c
  | .surrogate n => .surrogate n

/-- The string begins with `http://` or `https://`, ignoring ASCII case. -/
def BeginsHttp (s : Str) : Prop :=
  lit "http://" <+: s.map asciiLower ∨ lit "https://" <+: s.map asciiLower

section
variable [UnicodeData]

/-- Only an ASCII letter has one of these characters first in its lower-case
    mapping, so a prefix made of them is an ASCII one. -/
theorem prefix_lower_iff {ws : List Char} (hws : ∀ c ∈ ws, c.toNat < 0x80 ∧ c ≠ 'k' ∧ c ≠ 'i')
    (s : Str) : ws.map CodePoint.scalar <+: s.lower ↔ ws.map CodePoint.scalar <+: s.map asciiLower := by
  induction ws generalizing s with
  | nil => simp
  | cons d ws ih =>
    obtain ⟨hd, hk, hi⟩ := hws d (by simp)
    have htail := ih fun c hc => hws c (List.mem_cons_of_mem _ hc)
    cases s with
    | nil => simp [Str.lower]
    | cons c s =>
      cases c with
      | surrogate n =>
        have hlower : Str.lower (.surrogate n :: s) = .surrogate n :: Str.lower s := rfl
        simp [hlower, asciiLower]
      | scalar c =>
        by_cases hc : c.toNat < 0x80
        · have hlower : Str.lower (.scalar c :: s) = .scalar c.toLower :: Str.lower s := by
            simp [Str.lower, UnicodeData.lower_ascii c hc]
          rw [hlower, List.map_cons, List.map_cons, List.cons_prefix_cons, List.cons_prefix_cons,
            htail s, asciiLower, if_pos hc]
        · obtain ⟨e, es, hes⟩ := List.exists_cons_of_ne_nil (UnicodeData.lower_ne_nil c)
          have hlower : Str.lower (.scalar c :: s) =
              .scalar e :: (es.map CodePoint.scalar ++ Str.lower s) := by
            simp [Str.lower, hes]
          have hmapped : d ≠ e := by
            rintro rfl
            rcases UnicodeData.lower_nonAscii c (not_lt.mp hc) d (by simp [hes]) hd with h | h
            · exact hk h.2
            · exact hi h.2
          have hself : d ≠ c := by
            rintro rfl
            exact hc hd
          simp [hlower, asciiLower, hc, hmapped, hself]

theorem isHttp_iff (s : Str) : isHttp s ↔ BeginsHttp s := by
  have hhttp : ∀ c ∈ "http://".toList, c.toNat < 0x80 ∧ c ≠ 'k' ∧ c ≠ 'i' := by simp
  have hhttps : ∀ c ∈ "https://".toList, c.toNat < 0x80 ∧ c ≠ 'k' ∧ c ≠ 'i' := by simp
  rw [isHttp, Bool.or_eq_true, List.isPrefixOf_iff_prefix, List.isPrefixOf_iff_prefix]
  exact or_congr (prefix_lower_iff hhttp s) (prefix_lower_iff hhttps s)

end

/-- Encoding parentheses does not change a prefix that has none. -/
theorem prefix_encodeParens {w s : Str} (hw : ∀ c ∈ w, c ≠ .scalar '(' ∧ c ≠ .scalar ')')
    (h : w <+: s.map asciiLower) : w <+: (encodeParens s).map asciiLower := by
  induction w generalizing s with
  | nil => simp
  | cons d w ih =>
    cases s with
    | nil => simp at h
    | cons c s =>
      rw [List.map_cons, List.cons_prefix_cons] at h
      obtain ⟨rfl, hrest⟩ := h
      have hopen : c ≠ .scalar '(' := by
        rintro rfl
        exact (hw (asciiLower (.scalar '(')) (by simp)).1 (by decide)
      have hclose : c ≠ .scalar ')' := by
        rintro rfl
        exact (hw (asciiLower (.scalar ')')) (by simp)).2 (by decide)
      rw [encodeParens, List.flatMap_cons, encodeParen_of_ne hopen hclose, List.singleton_append,
        List.map_cons, List.cons_prefix_cons]
      exact ⟨rfl, ih (fun e he => hw e (List.mem_cons_of_mem _ he)) hrest⟩

theorem BeginsHttp.encodeParens {s : Str} (h : BeginsHttp s) : BeginsHttp (encodeParens s) :=
  h.imp (prefix_encodeParens (by decide)) (prefix_encodeParens (by decide))

/-! ## URLs that stay inside their link -/

variable [UnicodeData]

/-- What the reporter prints for the URL is nothing, or a URL of an allowed
    scheme that `(` and `)` around it delimit: read as a destination, it ends at
    the closing parenthesis and is all there is before it. -/
def UrlConfined (url : Str) : Prop :=
  safeUrl url = [] ∨
    BeginsHttp (safeUrl url) ∧
      bareDestination false 0 (safeUrl url ++ lit ")") = some (safeUrl url, lit ")")

omit [UnicodeData] in
/-- Without its whitespace, the string holds no ASCII control character and does
    not end in an odd number of backslashes. -/
def DelimitedUrl (url : Str) : Prop :=
  (∀ c ∈ url, c.isSpace = false → isAsciiControl c = false) ∧
    escaped (url.filter (!·.isSpace)) = false

/-- An accepted URL stays inside its link exactly when it is delimited. -/
theorem urlConfined_iff (url : Str) : UrlConfined url ↔
    (BeginsHttp (url.filter (!·.isSpace)) → DelimitedUrl url) := by
  have hcompact : compactUrl url = url.filter (!·.isSpace) := Str.join_nil_split url
  have hcontrol : (∀ c ∈ encodeParens (compactUrl url), isAsciiControl c = false) ↔
      ∀ c ∈ url, c.isSpace = false → isAsciiControl c = false := by
    have hfind : (∀ c ∈ encodeParens (compactUrl url), isAsciiControl c = false) ↔
        (compactUrl url).find? isAsciiControl = none := by
      rw [← find?_encodeParens (by decide) (by decide)]
      simp
    rw [hfind, hcompact]
    simp
  have hescaped : escaped (encodeParens (compactUrl url)) =
      escaped (url.filter (!·.isSpace)) := by
    rw [escaped, backslashRun_encodeParens, hcompact, escaped]
  have hiff := isHttp_iff (compactUrl url)
  rw [UrlConfined, safeUrl_eq, ← hcompact]
  by_cases hhttp : isHttp (compactUrl url)
  · have hurl : Parenthesizable (encodeParens (compactUrl url)) :=
      parenthesizable_of_isHttp hhttp fun c => isSpace_eq_false_of_mem_compactUrl
    have hscheme := (hiff.mp hhttp).encodeParens
    have hdest := hurl.bareDestination_iff
    rw [hcontrol, hescaped] at hdest
    rw [if_pos hhttp]
    constructor
    · rintro (hnil | ⟨-, hread⟩) -
      · exact absurd hnil hurl.ne_nil
      · exact hdest.mp hread
    · intro h
      exact .inr ⟨hscheme, hdest.mpr (h (hiff.mp hhttp))⟩
  · rw [if_neg hhttp]
    exact iff_of_true (.inl rfl) fun hbegins => absurd (hiff.mpr hbegins) hhttp

omit [UnicodeData] in
/-- A URL that ends in a backslash escapes the parenthesis the reporter closes
    the link with. -/
theorem not_urlConfined_backslash :
    ¬ ∀ url : Str, @UrlConfined .basicLatin url := by
  intro h
  have hdelimited := (@urlConfined_iff .basicLatin (lit "https://good.example/\\")).mp (h _) (by
    right
    decide)
  exact absurd hdelimited.2 (by decide)

end ResearchSynthesis
