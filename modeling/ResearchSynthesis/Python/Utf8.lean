-- SUMMARY: Strict UTF-8 encoding of Python strings, which refuses exactly the lone surrogates.
import ResearchSynthesis.Python.Text

/-! # UTF-8

`s.encode("utf-8")` with the default error handler: a scalar value becomes its
one to four bytes, a lone surrogate raises `UnicodeEncodeError`. -/

namespace Python

abbrev Bytes := List UInt8

namespace Str

/-- `s.encode("utf-8")`; `none` is `UnicodeEncodeError`. -/
def encode : Str → Option Bytes
  | [] => some []
  | .scalar c :: s => (encode s).map (String.utf8EncodeChar c ++ ·)
  | .surrogate _ :: _ => none

/-- `b.decode("utf-8")`; `none` is `UnicodeDecodeError`. -/
def decode (b : Bytes) : Option Str :=
  b.toByteArray.utf8Decode?.map fun cs => cs.toList.map .scalar

/-- The string has a strict UTF-8 encoding. -/
def Encodable (s : Str) : Prop := ∀ c ∈ s, c.isSurrogate = false

instance (s : Str) : Decidable s.Encodable := inferInstanceAs (Decidable (∀ _ ∈ s, _))

@[simp] theorem encodable_nil : Encodable [] := by simp [Encodable]

@[simp] theorem encodable_append {s t : Str} : Encodable (s ++ t) ↔ s.Encodable ∧ t.Encodable := by
  simp [Encodable, or_imp, forall_and]

@[simp] theorem encodable_cons {c : CodePoint} {s : Str} :
    Encodable (c :: s) ↔ c.isSurrogate = false ∧ s.Encodable := by
  simp [Encodable]

theorem encodable_join {sep : Str} {xs : List Str} (hsep : sep.Encodable) :
    Encodable (join sep xs) ↔ ∀ x ∈ xs, x.Encodable := by
  constructor
  · intro h x hx c hc
    exact h c (mem_join_of_mem hx hc)
  · intro h c hc
    rcases mem_join hc with hc | ⟨x, hx, hc⟩
    · exact hsep c hc
    · exact h x hx c hc

@[simp] theorem encodable_lit (s : String) : (lit s).Encodable := by
  intro c hc
  obtain ⟨d, -, rfl⟩ := List.mem_map.mp hc
  rfl

theorem encodable_replace {s new : Str} {c : CodePoint} (hc : c.isSurrogate = false)
    (hnew : new.Encodable) : (s.replace c new).Encodable ↔ s.Encodable := by
  induction s with
  | nil => simp [replace]
  | cons d s ih =>
    have hhead : Encodable (if d = c then new else [d]) ↔ d.isSurrogate = false := by
      by_cases hd : d = c
      · rw [if_pos hd, hd]
        exact iff_of_true hnew hc
      · simp [hd]
    rw [replace, List.flatMap_cons, encodable_append, hhead, encodable_cons]
    exact and_congr_right fun _ => ih

/-- Splitting drops whitespace only, and no surrogate is whitespace. -/
theorem encodable_split (s : Str) : (∀ w ∈ s.split, w.Encodable) ↔ s.Encodable := by
  constructor
  · intro h c hc
    cases c with
    | scalar c => rfl
    | surrogate n =>
      obtain ⟨w, hw, hmem⟩ := mem_split_iff.mpr ⟨hc, CodePoint.isSpace_surrogate n⟩
      exact h w hw _ hmem
  · intro h w hw c hc
    exact h c (mem_split_iff.mp ⟨w, hw, hc⟩).1

theorem encodable_join_split {sep : Str} (hsep : sep.Encodable) (s : Str) :
    (join sep s.split).Encodable ↔ s.Encodable :=
  (encodable_join hsep).trans (encodable_split s)

theorem encodable_iff_map_scalar {s : Str} : s.Encodable ↔ ∃ cs : List Char, s = cs.map .scalar := by
  constructor
  · intro h
    induction s with
    | nil => exact ⟨[], rfl⟩
    | cons c s ih =>
      obtain ⟨hc, hs⟩ := encodable_cons.mp h
      obtain ⟨cs, rfl⟩ := ih hs
      cases c with
      | scalar c => exact ⟨c :: cs, rfl⟩
      | surrogate n => cases hc
  · rintro ⟨cs, rfl⟩ c hc
    obtain ⟨d, -, rfl⟩ := List.mem_map.mp hc
    rfl

theorem encode_map_scalar (cs : List Char) :
    encode (cs.map .scalar) = some (cs.flatMap String.utf8EncodeChar) := by
  induction cs with
  | nil => rfl
  | cons c cs ih => simp [encode, ih]

theorem encode_append {s t : Str} {a b : Bytes} (hs : s.encode = some a) (ht : t.encode = some b) :
    (s ++ t).encode = some (a ++ b) := by
  induction s generalizing a with
  | nil =>
    cases hs
    exact ht
  | cons c s ih =>
    cases c with
    | surrogate n => cases hs
    | scalar c =>
      obtain ⟨a', ha', rfl⟩ := Option.map_eq_some_iff.mp hs
      rw [List.cons_append, encode, ih ha', Option.map_some, List.append_assoc]

theorem encode_eq_none_iff {s : Str} : s.encode = none ↔ ¬ s.Encodable := by
  induction s with
  | nil => simp [encode]
  | cons c s ih =>
    cases c with
    | scalar c => simp [encode, ih, CodePoint.isSurrogate]
    | surrogate n => simp [encode, CodePoint.isSurrogate]

theorem exists_encode_iff {s : Str} : (∃ b, s.encode = some b) ↔ s.Encodable := by
  rw [← Option.isSome_iff_exists, Option.isSome_iff_ne_none, ne_eq, encode_eq_none_iff, not_not]

/-- What was encoded decodes to itself. -/
theorem decode_encode {s : Str} {b : Bytes} (h : s.encode = some b) : decode b = some s := by
  have hs : s.Encodable := exists_encode_iff.mp ⟨b, h⟩
  obtain ⟨cs, rfl⟩ := encodable_iff_map_scalar.mp hs
  rw [encode_map_scalar] at h
  cases h
  have hb : (cs.flatMap String.utf8EncodeChar).toByteArray = cs.utf8Encode := rfl
  rw [decode, hb, List.utf8Decode?_utf8Encode]
  simp

/-- Two strings with one encoding are equal. -/
theorem encode_injective {s t : Str} {b : Bytes} (hs : s.encode = some b)
    (ht : t.encode = some b) : s = t :=
  Option.some.inj ((decode_encode hs).symm.trans (decode_encode ht))

end Str

end Python
