-- SUMMARY: When a source's line shows the reporter's own link and no other: the exact condition on the title and the URL.
import ResearchSynthesis.Report
import ResearchSynthesis.CommonMark.Links
import ResearchSynthesis.CommonMark.Substitution

/-!
# Forged links

The line of a source, read with CommonMark's inline rules, should show the link
that the reporter wrote and nothing else. The reporter escapes brackets without
looking at the backslashes in front of them and leaves angle brackets alone, so
this holds of some titles and URLs only; `LinkSafe` says of which.
-/

namespace ResearchSynthesis
open Python CommonMark

/-! ## The two substitutions -/

theorem escapeLinkText_eq (text : Str) : escapeLinkText text = escapeBrackets (oneline text) := by
  rw [escapeLinkText, Str.replace, Str.replace, List.flatMap_assoc, escapeBrackets]
  congr 1
  funext c
  by_cases hopen : c = .scalar '['
  · rw [hopen]
    rfl
  by_cases hclose : c = .scalar ']'
  · rw [hclose]
    rfl
  · simp [hopen, hclose, escapeBracket, isBracket]

variable [UnicodeData]

theorem safeUrl_eq (url : Str) :
    safeUrl url = if isHttp (compactUrl url) then encodeParens (compactUrl url) else [] := by
  have hreplace (s : Str) : (s.replace '(' (lit "%28")).replace ')' (lit "%29") = encodeParens s := by
    rw [Str.replace, Str.replace, List.flatMap_assoc, encodeParens]
    congr 1
    funext c
    by_cases hopen : c = .scalar '('
    · rw [hopen]
      rfl
    · simp [hopen, encodeParen]
  cases h : isHttp (compactUrl url) <;> simp [safeUrl, h, hreplace]

omit [UnicodeData] in
theorem isSpace_eq_false_of_mem_compactUrl {url : Str} {c : CodePoint} (h : c ∈ compactUrl url) :
    c.isSpace = false := by
  rw [compactUrl, Str.join_nil_split, List.mem_filter] at h
  simpa using h.2

/-- An accepted URL starts with the letter of its scheme. -/
theorem head_of_isHttp {url : Str} (h : isHttp url) : ∃ c s, url = c :: s ∧ c ≠ .scalar '<' := by
  have hprefix : (lit "h").isPrefixOf url.lower := by
    rw [isHttp, Bool.or_eq_true, List.isPrefixOf_iff_prefix, List.isPrefixOf_iff_prefix] at h
    rw [List.isPrefixOf_iff_prefix]
    rcases h with h | h <;> exact (by decide : lit "h" <+: _).trans h
  cases url with
  | nil => cases hprefix
  | cons c s =>
    refine ⟨c, s, rfl, ?_⟩
    rintro rfl
    have hlower : UnicodeData.lower '<' = ['<'] := UnicodeData.lower_ascii '<' (by decide)
    have hcons : Str.lower (.scalar '<' :: s) = .scalar '<' :: Str.lower s := by
      simp [Str.lower, hlower]
    rw [hcons] at hprefix
    cases hprefix

theorem parenthesizable_of_isHttp {url : Str} (h : isHttp url)
    (hspace : ∀ c ∈ url, c.isSpace = false) : Parenthesizable (encodeParens url) := by
  obtain ⟨c, s, hcons, hc⟩ := head_of_isHttp h
  have hhead : ∃ d v, encodeParens url = d :: v ∧ d ≠ .scalar '<' := by
    rw [hcons, encodeParens, List.flatMap_cons]
    rcases encodeParen_cases c with ⟨heq, -⟩ | ⟨heq, -⟩ | ⟨heq, -⟩ <;> rw [heq]
    · exact ⟨_, _, rfl, by decide⟩
    · exact ⟨_, _, rfl, by decide⟩
    · exact ⟨_, _, rfl, hc⟩
  obtain ⟨d, v, hv, hd⟩ := hhead
  refine ⟨by rw [hv]; simp, by simpa [hv] using hd, fun e he => ?_⟩
  rcases mem_encodeParens he with he | ⟨he, hopen, hclose⟩
  · exact (by decide : ∀ e ∈ lit "%289",
      e ≠ .scalar '(' ∧ e ≠ .scalar ')' ∧ isBlank e = false) e he
  · refine ⟨hopen, hclose, ?_⟩
    by_contra hblank
    rw [Bool.not_eq_false, isBlank, Bool.or_eq_true, decide_eq_true_eq, decide_eq_true_eq] at hblank
    have := hspace e he
    rcases hblank with rfl | rfl <;> cases this

/-! ## Which titles and URLs are safe -/

/-- The line of `result` shows the link the reporter wrote and nothing else, and
    every bracket of the title is literal. -/
structure Unforgeable (result : Dict) : Prop where
  spans : spans (formatSource result) =
    if safeUrl (result.getStr "url" "") = [] then []
    else [.link (escapeLinkText (result.getStr "title" "(untitled)"))
      (safeUrl (result.getStr "url" ""))]
  brackets : BracketsEscaped (escapeLinkText (result.getStr "title" "(untitled)"))

/-- What a title and an accepted URL must be for the link between them to come
    out: the brackets and parentheses around them stay live, no control character
    ends the URL, and no autolink runs from the title into it. -/
structure LinkedSafe (title url : Str) : Prop where
  label : escaped title = false
  control : ∀ c ∈ url, isAsciiControl c = false
  close : escaped url = false
  crossing : ∀ p q, title = p ++ .scalar '<' :: q → escaped p = false →
    (∀ c ∈ q, isAngle c = false) → isAbsoluteUri q → url.find? isAngle ≠ some (.scalar '>')

/-- No bracket of the title is escaped already, no live `<` of it opens an
    autolink, and an accepted URL fits behind it. -/
structure LinkSafe (title url : Str) : Prop where
  brackets : ∀ p c q, title = p ++ c :: q → isBracket c → escaped p = false
  autolink : ∀ p q, title = p ++ .scalar '<' :: q → escaped p = false → autolinkBody? q = none
  linked : isHttp url → LinkedSafe title url

omit [UnicodeData] in
theorem bracketsEscaped_iff {title : Str} : BracketsEscaped (escapeBrackets title) ↔
    ∀ p c q, title = p ++ c :: q → isBracket c → escaped p = false := by
  simp only [bracketsEscaped_escapeBrackets_iff, ← Nat.not_odd_iff_even, ← escaped_iff_odd,
    Bool.not_eq_true]

omit [UnicodeData] in
theorem not_opensAutolink_iff {title : Str} : ¬ OpensAutolink [] (escapeBrackets title) [] ↔
    ∀ p q, title = p ++ .scalar '<' :: q → escaped p = false → autolinkBody? q = none := by
  rw [opensAutolink_escapeBrackets backslashRun_nil]
  simp only [List.append_nil, isSome_autolinkBody?_escapeBrackets, not_exists, not_and,
    Option.not_isSome_iff_eq_none]

omit [UnicodeData] in
/-- An autolink crosses into an accepted URL only if its scheme, its colon and
    its `<` are the title's. -/
theorem not_opensAutolink_parenthesized_iff {title url : Str}
    (hspace : ∀ c ∈ url, c.isSpace = false) (hctrl : ∀ c ∈ url, isAsciiControl c = false) :
    ¬ OpensAutolink [] (escapeBrackets title)
        (.scalar ']' :: parenthesized (encodeParens url)) ↔
      ∀ p q, title = p ++ .scalar '<' :: q → escaped p = false → autolinkBody? q = none ∧
        ((∀ c ∈ q, isAngle c = false) → isAbsoluteUri q →
          url.find? isAngle ≠ some (.scalar '>')) := by
  have huri : ∀ c ∈ parenthesized (encodeParens url), isUriCharacter c ∨ isAngle c := by
    intro c hc
    rw [parenthesized, List.mem_cons, List.mem_append, List.mem_singleton] at hc
    rcases hc with rfl | hc | rfl
    · decide
    · rcases mem_encodeParens hc with hc | ⟨hc, -⟩
      · exact .inl ((by decide : ∀ c ∈ lit "%289", isUriCharacter c = true) c hc)
      · by_cases hangle : isAngle c
        · exact .inr hangle
        have hblank : c ≠ .scalar ' ' := by
          rintro rfl
          exact absurd (hspace _ hc) (by decide)
        simp only [isAngle, Bool.or_eq_true, decide_eq_true_eq, not_or] at hangle
        exact .inl (by simp [isUriCharacter, hctrl c hc, lit, hangle, hblank])
    · decide
  have hfind : (parenthesized (encodeParens url)).find? isAngle = url.find? isAngle := by
    rw [parenthesized, List.find?_cons_of_neg (by decide), List.find?_append,
      find?_encodeParens (by decide) (by decide)]
    simp [isAngle]
  rw [opensAutolink_escapeBrackets backslashRun_nil]
  simp only [isSome_autolinkBody?_append_bracket huri, hfind, not_exists, not_and, not_or,
    Option.not_isSome_iff_eq_none, ne_eq]

omit [UnicodeData] in
theorem spans_linkedSafe_iff {title url : Str} (hbrackets : BracketsEscaped (escapeBrackets title))
    (hspace : ∀ c ∈ url, c.isSpace = false) (hurl : Parenthesizable (encodeParens url)) :
    spans (lit "- [" ++ escapeBrackets title ++ lit "](" ++ encodeParens url ++ lit ")") =
        [.link (escapeBrackets title) (encodeParens url)] ↔
      (∀ p q, title = p ++ .scalar '<' :: q → escaped p = false → autolinkBody? q = none) ∧
        LinkedSafe title url := by
  have hcontrol : (encodeParens url).any isAsciiControl = false ↔
      ∀ c ∈ url, isAsciiControl c = false := by
    have hfind (s : Str) : s.any isAsciiControl = false ↔ s.find? isAsciiControl = none := by simp
    rw [hfind, find?_encodeParens (by decide) (by decide)]
    simp
  have hlabel : escaped (escapeBrackets title) = escaped title := by
    rw [escaped, backslashRun_escapeBrackets, escaped]
  have hclose : escaped (encodeParens url) = escaped url := by
    rw [escaped, backslashRun_encodeParens, escaped]
  rw [spans_linked_iff hbrackets hurl, hcontrol, hlabel, hclose]
  constructor
  · rintro ⟨hauto, htitle, hctrl, hesc⟩
    rw [not_opensAutolink_parenthesized_iff hspace hctrl] at hauto
    exact ⟨fun p q hsplit hlive => (hauto p q hsplit hlive).1,
      htitle, hctrl, hesc, fun p q hsplit hlive => (hauto p q hsplit hlive).2⟩
  · rintro ⟨hauto, htitle, hctrl, hesc, hcross⟩
    rw [not_opensAutolink_parenthesized_iff hspace hctrl]
    exact ⟨fun p q hsplit hlive => ⟨hauto p q hsplit hlive, hcross p q hsplit hlive⟩,
      htitle, hctrl, hesc⟩

/-- The line of a source has one of two forms. -/
theorem formatSource_eq (result : Dict) :
    let title := escapeBrackets (oneline (result.getStr "title" "(untitled)"))
    let url := compactUrl (result.getStr "url" "")
    formatSource result =
      if isHttp url then lit "- [" ++ title ++ lit "](" ++ encodeParens url ++ lit ")"
      else lit "- " ++ title := by
  intro title url
  have hsafe : safeUrl (result.getStr "url" "") = if isHttp url then encodeParens url else [] :=
    safeUrl_eq _
  rw [formatSource, escapeLinkText_eq, hsafe]
  by_cases hhttp : isHttp url
  · have hne : encodeParens url ≠ [] :=
      (parenthesizable_of_isHttp hhttp fun c => isSpace_eq_false_of_mem_compactUrl).ne_nil
    rw [if_pos hhttp, if_pos hhttp, if_pos hne]
  · rw [if_neg hhttp, if_neg hhttp, if_neg (by simp)]

/-- The line of a source shows the reporter's own link and nothing else exactly
    when title and URL are safe. -/
theorem unforgeable_iff (result : Dict) : Unforgeable result ↔
    LinkSafe (oneline (result.getStr "title" "(untitled)"))
      (compactUrl (result.getStr "url" "")) := by
  have hiff : Unforgeable result ↔ spans (formatSource result) = _ ∧ BracketsEscaped _ :=
    ⟨fun h => ⟨h.spans, h.brackets⟩, fun h => ⟨h.1, h.2⟩⟩
  rw [hiff, formatSource_eq, escapeLinkText_eq, safeUrl_eq]
  have hspace : ∀ c ∈ compactUrl (result.getStr "url" ""), c.isSpace = false :=
    fun c => isSpace_eq_false_of_mem_compactUrl
  generalize oneline (result.getStr "title" "(untitled)") = title
  generalize compactUrl (result.getStr "url" "") = url at hspace ⊢
  by_cases hhttp : isHttp url
  · have hurl := parenthesizable_of_isHttp hhttp hspace
    rw [if_pos hhttp, if_pos hhttp, if_neg hurl.ne_nil]
    constructor
    · rintro ⟨hspans, hbrackets⟩
      obtain ⟨hauto, hlinked⟩ := (spans_linkedSafe_iff hbrackets hspace hurl).mp hspans
      exact ⟨bracketsEscaped_iff.mp hbrackets, hauto, fun _ => hlinked⟩
    · rintro ⟨hbrackets, hauto, hlinked⟩
      have hbrackets := bracketsEscaped_iff.mpr hbrackets
      exact ⟨(spans_linkedSafe_iff hbrackets hspace hurl).mpr ⟨hauto, hlinked hhttp⟩, hbrackets⟩
  · rw [if_neg hhttp, if_neg hhttp, if_pos rfl]
    constructor
    · rintro ⟨hspans, hbrackets⟩
      exact ⟨bracketsEscaped_iff.mp hbrackets,
        not_opensAutolink_iff.mp ((spans_plain_iff hbrackets).mp hspans), fun h => absurd h hhttp⟩
    · rintro ⟨hbrackets, hauto, -⟩
      have hbrackets := bracketsEscaped_iff.mpr hbrackets
      exact ⟨(spans_plain_iff hbrackets).mpr (not_opensAutolink_iff.mpr hauto), hbrackets⟩

omit [UnicodeData] in
/-- A title can close the reporter's link text early: the backslash the escape
    puts in front of its bracket is itself escaped. -/
theorem not_unforgeable_backslash_title :
    ¬ @Unforgeable .basicLatin
      [(lit "title", .string (lit "\\](https://evil.example)")),
        (lit "url", .string (lit "https://good.example"))] := by
  intro h
  have hbrackets := @Unforgeable.spans .basicLatin _ h
  revert hbrackets
  decide +kernel

end ResearchSynthesis
