-- SUMMARY: What `strip` leaves of a string, and how `split` sees a string whose characters are substituted one by one.
import ResearchSynthesis.Python.Text
import Mathlib.Data.List.TakeWhile

/-! # Stripped strings and their words -/

namespace Python

namespace Str

/-! ## Stripping -/

theorem head?_dropWhile {p : CodePoint → Bool} {s : Str} {c : CodePoint}
    (h : c ∈ (s.dropWhile p).head?) : p c = false := by
  have hhead := List.head?_dropWhile_not p s
  rw [Option.mem_def.mp h] at hhead
  simpa using hhead

theorem dropWhile_eq_self {p : CodePoint → Bool} {s : Str} (h : ∀ c ∈ s.head?, p c = false) :
    s.dropWhile p = s := by
  cases s with
  | nil => rfl
  | cons c s => simp [h c rfl]

theorem isInfix_stripBy (p : CodePoint → Bool) (s : Str) : s.stripBy p <:+: s := by
  have hfront : s.dropWhile p <:+ s := List.dropWhile_suffix p
  have hback : s.stripBy p <+: s.dropWhile p := by
    rw [← List.reverse_suffix, stripBy, List.reverse_reverse]
    exact List.dropWhile_suffix p
  exact hback.isInfix.trans hfront.isInfix

/-- What is left does not end in a character of the set. -/
theorem getLast?_stripBy {p : CodePoint → Bool} {s : Str} {c : CodePoint}
    (h : c ∈ (s.stripBy p).getLast?) : p c = false := by
  rw [stripBy, List.getLast?_reverse] at h
  exact head?_dropWhile h

/-- What is left does not start with a character of the set. -/
theorem head?_stripBy {p : CodePoint → Bool} {s : Str} {c : CodePoint}
    (h : c ∈ (s.stripBy p).head?) : p c = false := by
  have hback : s.stripBy p <+: s.dropWhile p := by
    rw [← List.reverse_suffix, stripBy, List.reverse_reverse]
    exact List.dropWhile_suffix p
  obtain ⟨rest, hrest⟩ := hback
  refine head?_dropWhile (s := s) ?_
  rw [← hrest, Option.mem_def, List.head?_append, Option.mem_def.mp h, Option.some_or]

theorem stripBy_eq_self {p : CodePoint → Bool} {s : Str} (hhead : ∀ c ∈ s.head?, p c = false)
    (hlast : ∀ c ∈ s.getLast?, p c = false) : s.stripBy p = s := by
  have hback : s.reverse.dropWhile p = s.reverse :=
    dropWhile_eq_self fun c hc => hlast c (by rwa [List.head?_reverse] at hc)
  rw [stripBy, dropWhile_eq_self hhead, hback, List.reverse_reverse]

/-- Stripping drops the padding around a string that needs no stripping. -/
theorem stripBy_padded {p : CodePoint → Bool} {before s after : Str}
    (hbefore : ∀ c ∈ before, p c) (hafter : ∀ c ∈ after, p c)
    (hhead : ∀ c ∈ s.head?, p c = false) (hlast : ∀ c ∈ s.getLast?, p c = false) :
    (before ++ s ++ after).stripBy p = s := by
  cases s with
  | nil =>
    have hall : (before ++ [] ++ after).dropWhile p = [] := by
      rw [List.dropWhile_eq_nil_iff]
      intro c hc
      rcases List.mem_append.mp (by simpa using hc) with hc | hc
      · exact hbefore c hc
      · exact hafter c hc
    rw [stripBy, hall]
    rfl
  | cons c s =>
    have hfront : (before ++ (c :: s) ++ after).dropWhile p = (c :: s) ++ after := by
      rw [List.append_assoc, List.dropWhile_append_of_pos hbefore, List.cons_append,
        List.dropWhile_cons_of_neg (by simp [hhead c rfl])]
    rw [stripBy, hfront, List.reverse_append, List.dropWhile_append_of_pos fun d hd =>
      hafter d (List.mem_reverse.mp hd)]
    rw [dropWhile_eq_self fun d hd => hlast d (by rwa [List.head?_reverse] at hd),
      List.reverse_reverse]

/-! ## Words -/

theorem ne_nil_of_mem_split {s w : Str} (h : w ∈ s.split) : w ≠ [] := by
  simpa using (List.mem_filter.mp h).2

theorem head?_join {sep x : Str} {xs : List Str} (hx : x ≠ []) :
    (join sep (x :: xs)).head? = x.head? := by
  cases xs with
  | nil => simp
  | cons y ys =>
    obtain ⟨c, x, rfl⟩ := List.exists_cons_of_ne_nil hx
    simp

theorem getLast?_join {sep x : Str} {xs : List Str} (hx : x ≠ []) :
    (join sep (xs ++ [x])).getLast? = x.getLast? := by
  obtain ⟨rest, hrest⟩ := suffix_join sep x xs
  rw [← hrest, List.getLast?_append_of_ne_nil _ hx]

/-- Words joined by a separator start and end with a character of a word. -/
theorem head?_join_split {sep s : Str} {c : CodePoint} (h : c ∈ (join sep s.split).head?) :
    c.isSpace = false := by
  cases hwords : s.split with
  | nil => simp [hwords] at h
  | cons w ws =>
    have hw : w ∈ s.split := by simp [hwords]
    rw [hwords, head?_join (ne_nil_of_mem_split hw)] at h
    exact isSpace_eq_false_of_mem_split hw (List.mem_of_mem_head? h)

theorem getLast?_join_split {sep s : Str} {c : CodePoint} (h : c ∈ (join sep s.split).getLast?) :
    c.isSpace = false := by
  rcases List.eq_nil_or_concat s.split with hwords | ⟨ws, w, hwords⟩
  · simp [hwords] at h
  · have hw : w ∈ s.split := by simp [hwords]
    rw [hwords, List.concat_eq_append, getLast?_join (ne_nil_of_mem_split hw)] at h
    exact isSpace_eq_false_of_mem_split hw (List.mem_of_getLast? h)

/-! ## Substituting inside words -/

/-- A substitution of characters that leaves whitespace alone and makes none. -/
structure WordWise (f : CodePoint → Str) : Prop where
  space : ∀ c, c.isSpace → f c = [c]
  nonempty : ∀ c, f c ≠ []
  noSpace : ∀ c, c.isSpace = false → ∀ d ∈ f c, d.isSpace = false

theorem splitOnP_append_of_forall {p : CodePoint → Bool} {w : Str} (t : Str)
    (h : ∀ c ∈ w, p c = false) : (w ++ t).splitOnP p = (t.splitOnP p).modifyHead (w ++ ·) := by
  induction w with
  | nil =>
    obtain ⟨v, vs, hvs⟩ := List.exists_cons_of_ne_nil (List.splitOnP_ne_nil p t)
    simp [hvs]
  | cons c w ih =>
    rw [List.cons_append, List.splitOnP_cons_eq_if_modifyHead, if_neg (by simp [h c]),
      ih fun d hd => h d (List.mem_cons_of_mem _ hd), List.modifyHead_modifyHead]
    rfl

theorem WordWise.splitOnP {f : CodePoint → Str} (hf : WordWise f) (s : Str) :
    (s.flatMap f).splitOnP CodePoint.isSpace =
      (s.splitOnP CodePoint.isSpace).map (List.flatMap f) := by
  induction s with
  | nil => rfl
  | cons c s ih =>
    rw [List.flatMap_cons, List.splitOnP_cons_eq_if_modifyHead]
    cases hc : c.isSpace with
    | true =>
      rw [hf.space c hc, List.singleton_append, List.splitOnP_cons_eq_if_modifyHead, hc, ih]
      rfl
    | false =>
      rw [splitOnP_append_of_forall _ (hf.noSpace c hc), ih]
      obtain ⟨v, vs, hvs⟩ := List.exists_cons_of_ne_nil (List.splitOnP_ne_nil CodePoint.isSpace s)
      simp [hvs]

/-- Such a substitution takes each word by itself. -/
theorem WordWise.split {f : CodePoint → Str} (hf : WordWise f) (s : Str) :
    Str.split (s.flatMap f) = s.split.map (List.flatMap f) := by
  have hempty (w : Str) : (w.flatMap f).isEmpty = w.isEmpty := by
    cases w <;> simp [hf.nonempty]
  rw [Str.split, hf.splitOnP, List.filter_map, Str.split]
  simp only [Function.comp_def, hempty]

theorem WordWise.join {f : CodePoint → Str} (hf : WordWise f) (ws : List Str) :
    Str.join (lit " ") (ws.map (List.flatMap f)) = (Str.join (lit " ") ws).flatMap f := by
  have hblank : (lit " ").flatMap f = lit " " := by
    simpa [lit] using hf.space (.scalar ' ') (by decide)
  induction ws with
  | nil => rfl
  | cons w ws ih =>
    cases ws with
    | nil => simp
    | cons v vs =>
      rw [List.map_cons, List.map_cons, join_cons_cons, ← List.map_cons, ih, join_cons_cons,
        List.flatMap_append, List.flatMap_append, hblank]

/-- Collapsing whitespace before the substitution or after it is the same. -/
theorem WordWise.join_split {f : CodePoint → Str} (hf : WordWise f) (s : Str) :
    Str.join (lit " ") (Str.split (s.flatMap f)) = (Str.join (lit " ") s.split).flatMap f := by
  rw [hf.split, hf.join]

end Str

end Python
