-- SUMMARY: Paths and a disk whose file operations may fail at any point, as `write_text` and `open("a")` use it.
import ResearchSynthesis.Python.Utf8
import Mathlib.Logic.Function.Basic

/-!
# Files

A disk maps absolute paths to the bytes stored there. How the operating system
answers an `open`, `write`, `close` sequence is an input: it may refuse the
`open`, or raise later, when only the first bytes have reached the file.
Encoding comes in between: the file is open, and truncated if it was opened
with mode `"w"`, before the text is encoded.
-/

namespace Python

/-- An absolute path, as its components below the root. -/
abbrev Path := List Str

namespace Path

/-- `base / name`: the components of `name` below `base`, or below the root if
    `name` is absolute. -/
def child (base : Path) (name : Str) : Path :=
  let parts := (name.splitOnP (· = .scalar '/')).filter fun p => p ≠ [] ∧ p ≠ lit "."
  if name.head? = some (.scalar '/') then parts else base ++ parts

/-- `path.is_relative_to(base)`. -/
def isRelativeTo (path base : Path) : Bool := base.isPrefixOf path

/-- `str(path)`. -/
def str (path : Path) : Str := lit "/" ++ Str.join (lit "/") path

/-- A plain file name names a direct child. -/
theorem child_of_plain {base : Path} {name : Str} (hslash : CodePoint.scalar '/' ∉ name)
    (hempty : name ≠ []) (hdot : name ≠ lit ".") : base.child name = base ++ [name] := by
  have hsplit : name.splitOnP (· = CodePoint.scalar '/') = [name] :=
    List.splitOnP_eq_singleton fun c hc => by
      simpa using fun h : c = CodePoint.scalar '/' => hslash (h ▸ hc)
  have hhead : name.head? ≠ some (.scalar '/') := fun h => hslash (List.mem_of_mem_head? h)
  simp [child, hsplit, hhead, hempty, hdot]

end Path

structure Disk (ε : Type) where
  files : Path → Option Bytes
  /-- `path.resolve()`, with the symbolic links that are on the disk. It raises
      where they form a loop. -/
  resolve : Path → Except ε Path

/-- How the operating system answers `open`, `write` and `close` on one file. -/
inductive FileAnswer (ε : Type) where
  | accepts
  | refusesOpen (e : ε)
  /-- It raises when only the first `kept` bytes have been stored. -/
  | failsWrite (kept : Nat) (e : ε)

namespace Disk

variable {ε : Type}

def store (d : Disk ε) (p : Path) (b : Bytes) : Disk ε :=
  { d with files := Function.update d.files p (some b) }

@[simp] theorem store_files_self (d : Disk ε) (p : Path) (b : Bytes) :
    (d.store p b).files p = some b := by
  simp [store]

@[simp] theorem store_files_of_ne (d : Disk ε) {p q : Path} (b : Bytes) (h : q ≠ p) :
    (d.store p b).files q = d.files q := by
  simp [store, h]

@[simp] theorem store_resolve (d : Disk ε) (p : Path) (b : Bytes) :
    (d.store p b).resolve = d.resolve := rfl

/-- What is stored at a path; nothing where there is no file. -/
def content (d : Disk ε) (p : Path) : Bytes := (d.files p).getD []

/-- Write `text` to an open file that holds `old`. -/
def writeAfter (d : Disk ε) (p : Path) (old : Bytes) (text : Str) (encodeError : ε) :
    FileAnswer ε → Except ε Unit × Disk ε
  | .refusesOpen e => (.error e, d)
  | .accepts =>
    match text.encode with
    | none => (.error encodeError, d.store p old)
    | some b => (.ok (), d.store p (old ++ b))
  | .failsWrite kept e =>
    match text.encode with
    | none => (.error encodeError, d.store p old)
    | some b => (.error e, d.store p (old ++ b.take kept))

/-- `path.write_text(text, encoding="utf-8")`. -/
def writeText (d : Disk ε) (p : Path) (text : Str) (encodeError : ε) (answer : FileAnswer ε) :
    Except ε Unit × Disk ε :=
  d.writeAfter p [] text encodeError answer

/-- `with path.open("a", encoding="utf-8") as f: f.write(text)`. -/
def appendText (d : Disk ε) (p : Path) (text : Str) (encodeError : ε) (answer : FileAnswer ε) :
    Except ε Unit × Disk ε :=
  d.writeAfter p (d.content p) text encodeError answer

/-- What a write leaves behind: nothing changed, or the old content followed by
    the first bytes of the text. It is all of the text exactly when the write
    returns. -/
theorem writeAfter_cases (d : Disk ε) (p : Path) (old : Bytes) (text : Str) (encodeError : ε)
    (answer : FileAnswer ε) :
    (∃ b, text.encode = some b ∧ (∀ e, answer ≠ .refusesOpen e) ∧
      d.writeAfter p old text encodeError answer = (.ok (), d.store p (old ++ b))) ∨
    (∃ e, answer = .refusesOpen e ∧ d.writeAfter p old text encodeError answer = (.error e, d)) ∨
    ∃ e kept, (∀ e, answer ≠ .refusesOpen e) ∧ d.writeAfter p old text encodeError answer =
      (.error e, d.store p (old ++ (text.encode.getD []).take kept)) := by
  cases answer with
  | refusesOpen e => exact .inr (.inl ⟨e, rfl, rfl⟩)
  | accepts =>
    cases h : text.encode with
    | none => exact .inr (.inr ⟨encodeError, 0, by simp, by simp [writeAfter, h]⟩)
    | some b => exact .inl ⟨b, rfl, by simp, by simp [writeAfter, h]⟩
  | failsWrite kept e =>
    cases h : text.encode with
    | none => exact .inr (.inr ⟨encodeError, 0, by simp, by simp [writeAfter, h]⟩)
    | some b => exact .inr (.inr ⟨e, kept, by simp, by simp [writeAfter, h]⟩)

/-- A write touches its own file only. -/
theorem writeAfter_files_of_ne (d : Disk ε) {p q : Path} (old : Bytes) (text : Str) (encodeError : ε)
    (answer : FileAnswer ε) (h : q ≠ p) :
    (d.writeAfter p old text encodeError answer).2.files q = d.files q := by
  rcases d.writeAfter_cases p old text encodeError answer with
    ⟨b, -, -, hw⟩ | ⟨e, -, hw⟩ | ⟨e, kept, -, hw⟩
  · simp [hw, h]
  · simp [hw]
  · simp [hw, h]

/-- An append that is not torn leaves all of the text, or nothing of it. -/
theorem appendText_content (d : Disk ε) (p : Path) (text : Str) (encodeError : ε)
    {answer : FileAnswer ε} (h : ∀ kept e, answer ≠ .failsWrite kept e) :
    (d.appendText p text encodeError answer).2.content p = d.content p ∨
      ∃ b, text.encode = some b ∧
        (d.appendText p text encodeError answer).2.content p = d.content p ++ b := by
  unfold appendText
  cases answer with
  | refusesOpen e => exact .inl rfl
  | failsWrite kept e => exact absurd rfl (h kept e)
  | accepts =>
    cases htext : text.encode with
    | none => exact .inl (by simp [writeAfter, htext, content])
    | some b => exact .inr ⟨b, rfl, by simp [writeAfter, htext, content]⟩

end Disk

end Python
