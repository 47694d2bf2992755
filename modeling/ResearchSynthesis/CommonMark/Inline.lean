-- SUMMARY: The inline rules of CommonMark for one line: backslash escapes, autolinks, inline links and images.
import ResearchSynthesis.Python.Text

/-!
# Inline structure of a line

How CommonMark reads one line of text as far as links go: which links, images
and autolinks it holds. The line is scanned from left to right with a stack of
opening brackets. An ASCII punctuation character after a backslash is literal;
`<...>` around an absolute URI or an email address is an autolink and binds
tighter than brackets; a closing bracket matches the last opening one and makes
a link or an image if `(destination "title")` follows; a link deactivates the
link openers around it. Code spans, raw HTML and reference links are left out.
-/

namespace CommonMark
open Python

/-! ## Character classes -/

def isAsciiPunctuation (c : CodePoint) : Bool :=
  match c with
  | .scalar c => c ∈ "!\"#$%&'()*+,-./:;<=>?@[\\]^_\x60\x7b|\x7d~".toList
  | .surrogate _ => false

def isAsciiControl (c : CodePoint) : Bool := c.toNat < 0x20 || c.toNat = 0x7f

def isAsciiAlpha : CodePoint → Bool
  | .scalar c => c.isAlpha
  | .surrogate _ => false

def isAsciiAlphanum : CodePoint → Bool
  | .scalar c => c.isAlphanum
  | .surrogate _ => false

def isBlank (c : CodePoint) : Bool := c = .scalar ' ' || c = .scalar '\t'

/-! ## Autolinks -/

/-- A URI scheme: a letter, then letters, digits, `+`, `.`, `-`; 2 to 32 characters. -/
def isScheme : Str → Bool
  | [] => false
  | c :: cs => isAsciiAlpha c &&
      cs.all (fun d => isAsciiAlphanum d || d ∈ lit "+.-") &&
      decide (1 ≤ cs.length) && decide (cs.length ≤ 31)

/-- A scheme, a colon, and no control character, blank or angle bracket after it. -/
def isAbsoluteUri (s : Str) : Bool :=
  match s.dropWhile (· ≠ .scalar ':') with
  | [] => false
  | _ :: rest => isScheme (s.takeWhile (· ≠ .scalar ':')) &&
      rest.all fun c => !isAsciiControl c && c ∉ lit " <>"

/-- One label of a mail domain: 1 to 63 letters, digits and inner hyphens. -/
def isDomainLabel (s : Str) : Bool :=
  decide (1 ≤ s.length) && decide (s.length ≤ 63) &&
    s.all (fun c => isAsciiAlphanum c || c = .scalar '-') &&
    s.head? ≠ some (.scalar '-') && s.getLast? ≠ some (.scalar '-')

def isEmailAddress (s : Str) : Bool :=
  match s.dropWhile (· ≠ .scalar '@') with
  | [] => false
  | _ :: domain =>
    let mailbox := s.takeWhile (· ≠ .scalar '@')
    !mailbox.isEmpty &&
      mailbox.all (fun c => isAsciiAlphanum c || c ∈ lit ".!#$%&'*+/=?^_\x60\x7b|\x7d~-") &&
      (domain.splitOnP (· = .scalar '.')).all isDomainLabel

/-- What may stand between the angle brackets of an autolink. -/
def isAutolinkBody (s : Str) : Bool := isAbsoluteUri s || isEmailAddress s

def isAngle (c : CodePoint) : Bool := c = .scalar '<' || c = .scalar '>'

/-- The body of the autolink whose opening angle bracket comes just before `s`. -/
def autolinkBody? (s : Str) : Option Str :=
  let body := s.takeWhile (!isAngle ·)
  if (s.dropWhile (!isAngle ·)).head? = some (.scalar '>') ∧ isAutolinkBody body then some body
  else none

/-! ## Link destinations and titles -/

/-- Read a destination without angle brackets: up to a blank, a control
    character or an unbalanced `)`. `depth` parentheses are open, and `esc` says
    that the last character was an unescaped backslash. -/
def bareDestination (esc : Bool) (depth : Nat) : Str → Option (Str × Str)
  | [] => if depth = 0 then some ([], []) else none
  | c :: s =>
    let keep := fun (d : Option (Str × Str)) => d.map fun (dest, rest) => (c :: dest, rest)
    if esc && isAsciiPunctuation c then keep (bareDestination false depth s)
    else if c = .scalar '\\' then keep (bareDestination true depth s)
    else if c = .scalar '(' then keep (bareDestination false (depth + 1) s)
    else if c = .scalar ')' then
      if depth = 0 then some ([], c :: s) else keep (bareDestination false (depth - 1) s)
    else if c = .scalar ' ' || isAsciiControl c then if depth = 0 then some ([], c :: s) else none
    else keep (bareDestination false depth s)

/-- Read up to an unescaped `close`, with no unescaped `stop` before it. -/
def delimited (stop close : CodePoint) (esc : Bool) : Str → Option (Str × Str)
  | [] => none
  | c :: s =>
    let keep := fun (d : Option (Str × Str)) => d.map fun (text, rest) => (c :: text, rest)
    if esc && isAsciiPunctuation c then keep (delimited stop close false s)
    else if c = .scalar '\\' then keep (delimited stop close true s)
    else if c = close then some ([], s)
    else if c = stop then none
    else keep (delimited stop close false s)

/-- A destination and what follows it; it may be empty. -/
def destination? : Str → Option (Str × Str)
  | .scalar '<' :: s => delimited '<' '>' false s
  | s => bareDestination false 0 s

/-- What follows a link title. -/
def afterTitle? : Str → Option Str
  | .scalar '"' :: s => (delimited '"' '"' false s).map (·.2)
  | .scalar '\'' :: s => (delimited '\'' '\'' false s).map (·.2)
  | .scalar '(' :: s => (delimited '(' ')' false s).map (·.2)
  | _ => none

/-- What follows the parenthesis that closes a link. -/
def afterClose? : Str → Option Str
  | .scalar ')' :: s => some s
  | _ => none

/-- The destination of an inline link whose closing bracket comes just before
    `s`, and what follows the link. -/
def linkTail? : Str → Option (Str × Str)
  | .scalar '(' :: s =>
    match destination? (s.dropWhile isBlank) with
    | none => none
    | some (dest, rest) =>
      let rest' := rest.dropWhile isBlank
      match afterClose? rest' with
      | some after => some (dest, after)
      | none =>
        if rest = rest' then none
        else do
          let rest ← afterTitle? rest'
          let after ← afterClose? (rest.dropWhile isBlank)
          return (dest, after)
  | _ => none

/-! ## Scanning a line -/

/-- What a line holds of the three. Labels are the source text between the
    brackets, destinations are as they are written. -/
inductive Span where
  | link (label destination : Str)
  | image (label destination : Str)
  | autolink (body : Str)
  deriving DecidableEq

/-- An opening bracket that may still be closed. -/
structure Opener where
  image : Bool
  active : Bool
  /-- The line after the bracket. -/
  rest : Str

/-- A link makes the link openers around it inactive. -/
def Opener.deactivate (o : Opener) : Opener := { o with active := o.image && o.active }

/-- Close the last opening bracket, the line going on with `s`: what that
    makes, how much of `s` it takes, and the openers that are left. -/
def closeBracket (stack : List Opener) (s : Str) : List Span × Nat × List Opener :=
  match stack with
  | [] => ([], 0, [])
  | o :: stack =>
    match (if o.active then linkTail? s else none) with
    | none => ([], 0, stack)
    | some (dest, rest) =>
      let label := o.rest.take (o.rest.length - (s.length + 1))
      let skip := s.length - rest.length
      if o.image then ([.image label dest], skip, stack)
      else ([.link label dest], skip, stack.map Opener.deactivate)

/-- The spans from `s` on. The first `skip` characters belong to a span that has
    been read, and `esc` says that the last character was an unescaped
    backslash. -/
def scan (skip : Nat) (esc : Bool) (stack : List Opener) : Str → List Span
  | [] => []
  | c :: s =>
    match skip with
    | skip + 1 => scan skip false stack s
    | 0 =>
      if esc && isAsciiPunctuation c then scan 0 false stack s
      else if c = .scalar '\\' then scan 0 true stack s
      else if c = .scalar '<' then
        match autolinkBody? s with
        | some body => .autolink body :: scan (body.length + 1) false stack s
        | none => scan 0 false stack s
      else if c = .scalar '!' && s.head? = some (.scalar '[') then
        scan 1 false (⟨true, true, s.drop 1⟩ :: stack) s
      else if c = .scalar '[' then scan 0 false (⟨false, true, s⟩ :: stack) s
      else if c = .scalar ']' then
        let (found, skip, stack) := closeBracket stack s
        found ++ scan skip false stack s
      else scan 0 false stack s

/-- The links, images and autolinks of a line. -/
def spans (line : Str) : List Span := scan 0 false [] line

end CommonMark
