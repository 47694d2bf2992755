-- SUMMARY: The values a JSON document decodes to in Python, with `str`, `repr` and `dict.get`.
import ResearchSynthesis.Python.Utf8

/-!
# Decoded JSON values

What `json.loads` builds. A float is only ever printed by the programs modelled
here, so it is carried as its `repr`. Values are assumed to be within Python's own
limits on printing, the depth of nesting and the digits of an integer, so that
`str` and `repr` return.
-/

namespace Python

inductive Json where
  | null
  | bool (b : Bool)
  | int (i : Int)
  | float (repr : Str)
  | string (s : Str)
  | list (items : List Json)
  | dict (items : List (Str × Json))

/-- A decoded JSON object. -/
abbrev Dict := List (Str × Json)

/-- `d.get(key)`; `none` when the key is absent. -/
def Dict.get (d : Dict) (key : String) : Option Json := d.lookup (lit key)

/-! ## `repr` and `str` -/

/-- `width` hexadecimal digits of `n`. -/
def hexStr (width n : Nat) : Str := ((Nat.toDigits 16 n).leftpad width '0').map .scalar

section
variable [UnicodeData]

/-- A character inside a string's `repr`. -/
def CodePoint.repr (quote : Char) : CodePoint → Str
  | .surrogate n => lit "\\u" ++ hexStr 4 (0xD800 + n)
  | .scalar c =>
    if c = quote ∨ c = '\\' then ['\\', c]
    else if c = '\t' then lit "\\t"
    else if c = '\n' then lit "\\n"
    else if c = '\r' then lit "\\r"
    else if UnicodeData.isPrintable c then [.scalar c]
    else if c.toNat < 0x100 then lit "\\x" ++ hexStr 2 c.toNat
    else if c.toNat < 0x10000 then lit "\\u" ++ hexStr 4 c.toNat
    else lit "\\U" ++ hexStr 8 c.toNat

/-- `repr(s)`: double quotes only around a string with a single quote and no
    double one. -/
def Str.repr (s : Str) : Str :=
  let quote := if .scalar '\'' ∈ s ∧ .scalar '"' ∉ s then '"' else '\''
  .scalar quote :: s.flatMap (CodePoint.repr quote) ++ [.scalar quote]

namespace Json

mutual

/-- `repr(v)`, of a value within Python's limits on printing. -/
def repr : Json → Str
  | .null => lit "None"
  | .bool b => lit (if b then "True" else "False")
  | .int i => lit (toString i)
  | .float r => r
  | .string s => s.repr
  | .list items => lit "[" ++ Str.join (lit ", ") (reprs items) ++ lit "]"
  | .dict items => lit "\x7b" ++ Str.join (lit ", ") (reprItems items) ++ lit "\x7d"

def reprs : List Json → List Str
  | [] => []
  | v :: vs => v.repr :: reprs vs

def reprItems : List (Str × Json) → List Str
  | [] => []
  | (k, v) :: items => (k.repr ++ lit ": " ++ v.repr) :: reprItems items

end

/-- `str(v)`: a string is itself, any other value is its `repr`. -/
def str : Json → Str
  | .string s => s
  | v => v.repr

@[simp] theorem str_string (s : Str) : (Json.string s).str = s := rfl

end Json

/-- `str(d.get(key, default))`. -/
def Dict.getStr (d : Dict) (key default : String) : Str :=
  ((d.get key).map Json.str).getD (lit default)

/-! ## Encodability

`repr` escapes every lone surrogate, so the `repr` of a string can always be
encoded, whatever the string. -/

omit [UnicodeData] in
theorem encodable_hexStr (width n : Nat) : (hexStr width n).Encodable := by
  intro c hc
  obtain ⟨d, -, rfl⟩ := List.mem_map.mp hc
  rfl

theorem CodePoint.encodable_repr (quote : Char) (c : CodePoint) : (c.repr quote).Encodable := by
  cases c with
  | surrogate n =>
    exact Str.encodable_append.mpr ⟨Str.encodable_lit _, encodable_hexStr _ _⟩
  | scalar c =>
    have happ (s : String) (w n : Nat) : (lit s ++ hexStr w n).Encodable :=
      Str.encodable_append.mpr ⟨Str.encodable_lit _, encodable_hexStr _ _⟩
    simp only [CodePoint.repr]
    repeat' split
    all_goals first
      | exact happ _ _ _
      | exact Str.encodable_lit _
      | simp [CodePoint.isSurrogate]

theorem Str.encodable_repr (s : Str) : s.repr.Encodable := by
  intro c hc
  simp only [Str.repr, List.mem_append, List.mem_cons, List.mem_flatMap, List.not_mem_nil,
    or_false] at hc
  rcases hc with (rfl | ⟨d, -, hd⟩) | rfl
  · rfl
  · exact CodePoint.encodable_repr _ d c hd
  · rfl

end

end Python
