import EnvTemplate.Text.Alphabetic
import EnvTemplate.Text.Hex
import EnvTemplate.Text.Space

/-!
Patterns for the values of fields.  A pattern is a regular expression.  What it matches is of no
concern here, because no record is chosen by the value of a field, but a filter with a value that is
no pattern cannot be read.

Patterns are read without the tables that tell letters, digits and blanks of all scripts apart or
relate the two cases of a letter.  What takes such a table is no part of a pattern, unless the mode
restricts it to ASCII, and what would match a part of a character is no part of one either.

A pattern has a height, which is bounded.  Single characters have no height; a repetition, a group or
a class is higher by one than what is in it, and so are several parts one after another, alternatives,
and several parts of a class or two of them with an operator in between.
-/
namespace EnvTemplate
namespace Log
namespace Pattern

structure Mode where
  ignoresCase : Bool
  unicode : Bool
  spaced : Bool

namespace Mode

def start : Mode := ⟨false, true, false⟩

/-- Whether characters can be compared.  To ignore the case of all scripts takes a table. -/
def compares (m : Mode) : Bool := !(m.ignoresCase && m.unicode)

/-- Whether a text sets flags: each of them once, and at least one behind a minus. -/
def areFlags (flags : Text) : Bool :=
  flags.all "imsUuRx-".toList.contains && decide flags.Nodup && flags.getLast? != some '-'

/-- A flag after flags have been set.  Those behind a minus are taken back. -/
def flagAfter (flags : Text) (flag : Char) (old : Bool) : Bool :=
  if (flags.takeWhile (· != '-')).contains flag then true
  else if flags.contains flag then false
  else old

def set (m : Mode) (flags : Text) : Mode :=
  ⟨flagAfter flags 'i' m.ignoresCase, flagAfter flags 'u' m.unicode, flagAfter flags 'x' m.spaced⟩

def skipVoid (inComment : Bool) : Text → Text
  | [] => []
  | c :: t =>
    if inComment then skipVoid (c != '\n') t
    else if Space.contains c then skipVoid false t
    else if c = '#' then skipVoid true t
    else c :: t

def skip (m : Mode) (t : Text) : Text := if m.spaced then skipVoid false t else t

end Mode

inductive Escape
  | char (c : Char) (isByte : Bool)
  | shorthand (negated : Bool)
  | wordEdge
  | textEdge

def hexDigits? (m : Mode) : Nat → Text → Option (Text × Text)
  | 0, t => some ([], t)
  | n + 1, t =>
    match m.skip t with
    | [] => none
    | d :: t =>
      if (Hex.digit? d).isSome then (hexDigits? m n t).map fun (ds, t) => (d :: ds, t) else none

def hexChar? (m : Mode) (width : Nat) (t : Text) : Option (Char × Text) := do
  let (digits, t) ← hexDigits? m width t
  some (← Hex.char? digits, t)

def control? : Char → Option Char
  | 'a' => some '\x07'
  | 't' => some '\t'
  | 'n' => some '\n'
  | 'v' => some '\x0b'
  | 'f' => some '\x0c'
  | 'r' => some '\r'
  | _ => none

/-- What stands behind a backslash.  ASCII characters other than letters and digits stand for
themselves. -/
def escape? (m : Mode) : Text → Option (Escape × Text)
  | [] => none
  | 'x' :: t => (hexChar? m 2 t).map fun (c, t) => (.char c true, t)
  | 'u' :: t => (hexChar? m 4 t).map fun (c, t) => (.char c false, t)
  | 'U' :: t => (hexChar? m 8 t).map fun (c, t) => (.char c false, t)
  | c :: t =>
    if "dsw".toList.contains c then some (.shorthand false, t)
    else if "DSW".toList.contains c then some (.shorthand true, t)
    else if "bB<>".toList.contains c then some (.wordEdge, t)
    else if "Az".toList.contains c then some (.textEdge, t)
    else
      match control? c with
      | some c => some (.char c false, t)
      | none => if c < '\x80' && !c.isAlphanum then some (.char c false, t) else none

def isMember (m : Mode) (c : Char) : Bool := m.compares && (m.unicode || c < '\x80')

def classItem? (m : Mode) : Text → Option (Option Char × Text)
  | [] => none
  | '\\' :: t =>
    match escape? m t with
    | some (.char c _, t) => some (some c, t)
    | some (.shorthand negated, t) => if m.unicode || negated then none else some (none, t)
    | _ => none
  | c :: t => some (some c, t)

/-- Leaves out a character of a class, or a range of characters.  A hyphen before the closing bracket
or another hyphen makes no range. -/
def classPart? (m : Mode) (t : Text) : Option Text := do
  let (first, t) ← classItem? m t
  let alone := if first.all (isMember m) then some t else none
  match m.skip t with
  | '-' :: u =>
    match m.skip u with
    | ']' :: _ => alone
    | '-' :: _ => alone
    | u =>
      match first, ← classItem? m u with
      | some a, (some b, u) => if a ≤ b && isMember m a && isMember m b then some u else none
      | _, _ => none
  | _ => alone

def classNames : List Text :=
  ["alnum".toList, "alpha".toList, "ascii".toList, "blank".toList, "cntrl".toList, "digit".toList,
    "graph".toList, "lower".toList, "print".toList, "punct".toList, "space".toList, "upper".toList,
    "word".toList, "xdigit".toList]

/-- The rest of the name of a class between colons, behind its opening bracket, and whether the class
is negated. -/
def namedClass? : Text → Option (Bool × Text)
  | ':' :: t =>
    let negated := t.head? == some '^'
    match Text.splitAt? ':' (if negated then t.drop 1 else t) with
    | some (name, ']' :: t) => if classNames.contains name then some (negated, t) else none
    | _ => none
  | _ => none

/-- The height of something made of parts. -/
def above (heights : List Nat) : Nat := heights.foldl max 0 + 1

def inRow : List Nat → Nat
  | [] => 0
  | [height] => height
  | heights => above heights

structure Members where
  before : Option Nat
  /-- The heights of the parts behind it. -/
  parts : List Nat
  atHead : Bool

namespace Members

def start : Members := ⟨none, [], true⟩

def height (x : Members) : Nat :=
  match x.before with
  | none => inRow x.parts
  | some h => above [h, inRow x.parts]

def add (x : Members) (height : Nat) : Members := ⟨x.before, height :: x.parts, false⟩

def addHyphen (x : Members) : Members := { x with parts := 0 :: x.parts }

def addOperator (x : Members) : Members := ⟨some x.height, [], false⟩

end Members

def classHead? (m : Mode) (t : Text) : Option Text :=
  match m.skip t with
  | '^' :: t => if m.unicode then some t else none
  | t => some t

/-- Reads a class, behind its head and inside others, and answers with its height.  At the head of a
class hyphens stand for themselves, and so does a bracket that would close an empty class.  The number
of steps bounds the number of parts. -/
def class? (m : Mode) : Nat → Members → List Members → Text → Option (Nat × Text)
  | 0, _, _, _ => none
  | n + 1, x, around, t =>
    match m.skip t with
    | [] => none
    | ']' :: t =>
      if x.atHead && x.parts.isEmpty then
        if isMember m ']' then class? m n (x.add 0) around t else none
      else
        match around with
        | [] => some (above [x.height], t)
        | outer :: around => class? m n (outer.add (above [x.height])) around t
    | '[' :: t =>
      match namedClass? t with
      | some (negated, t) =>
        if m.compares && (m.unicode || !negated) then class? m n (x.add 0) around t else none
      | none =>
        match classHead? m t with
        | some t => class? m n .start (x :: around) t
        | none => none
    | '&' :: '&' :: t => class? m n x.addOperator around t
    | '~' :: '~' :: t => class? m n x.addOperator around t
    | '-' :: t =>
      if x.atHead then
        if isMember m '-' then class? m n x.addHyphen around t else none
      else if t.head? == some '-' then class? m n x.addOperator around (t.drop 1)
      else
        match classPart? m ('-' :: t) with
        | some t => class? m n (x.add 0) around t
        | none => none
    | t =>
      match classPart? m t with
      | some t => class? m n (x.add 0) around t
      | none => none

structure Branches where
  done : List Nat
  /-- The heights of the parts of the last alternative, the latest first. -/
  parts : List Nat
  repeatable : Bool

namespace Branches

def start : Branches := ⟨[], [], false⟩

def height (b : Branches) : Nat :=
  match b.done with
  | [] => inRow b.parts
  | done => above (inRow b.parts :: done)

def add (b : Branches) (height : Nat) : Branches :=
  { b with parts := height :: b.parts, repeatable := true }

def addFlags (b : Branches) : Branches := { b with parts := 0 :: b.parts, repeatable := false }

def next (b : Branches) : Branches := ⟨inRow b.parts :: b.done, [], false⟩

def again? (b : Branches) : Option Branches :=
  match b.repeatable, b.parts with
  | true, height :: parts => some { b with parts := above [height] :: parts }
  | _, _ => none

end Branches

structure Reading where
  mode : Mode
  inner : Branches
  /-- What stands around the open groups, the innermost first. -/
  around : List (Mode × Branches)
  names : List Text

namespace Reading

def start : Reading := ⟨.start, .start, [], []⟩

def enter (r : Reading) (m : Mode) : Reading :=
  { r with mode := m, inner := .start, around := (r.mode, r.inner) :: r.around }

def leave? (r : Reading) : Option Reading :=
  match r.around with
  | [] => none
  | (mode, outer) :: around =>
    some { r with mode, inner := outer.add (above [r.inner.height]), around }

def add (r : Reading) (height : Nat) : Reading := { r with inner := r.inner.add height }

def isGroupName : Text → Bool
  | [] => false
  | c :: t =>
    (c == '_' || Alphabetic.contains c) &&
      t.all fun c => "_.[]".toList.contains c || Alphabetic.orNumeral c

def namedGroup? (r : Reading) (t : Text) : Option (Reading × Text) := do
  let (name, t) ← Text.splitAt? '>' t
  if isGroupName name && !r.names.contains name then
    some ({ r.enter r.mode with names := name :: r.names }, t)
  else none

def group? (r : Reading) (t : Text) : Option (Reading × Text) :=
  match r.mode.skip t with
  | '?' :: 'P' :: '<' :: t => r.namedGroup? t
  | '?' :: '<' :: t => r.namedGroup? t
  | '?' :: t =>
    let flags := t.takeWhile fun c => c != ':' && c != ')'
    if Mode.areFlags flags then
      match flags, t.drop flags.length with
      | _, ':' :: t => some (r.enter (r.mode.set flags), t)
      | _ :: _, ')' :: t => some ({ r with mode := r.mode.set flags, inner := r.inner.addFlags }, t)
      | _, _ => none
    else none
  | t => some (r.enter r.mode, t)

def again? (r : Reading) (t : Text) : Option (Reading × Text) := do
  let inner ← r.inner.again?
  some ({ r with inner }, if t.head? == some '?' then t.drop 1 else t)

def admits (r : Reading) : Escape → Bool
  | .char c isByte => r.mode.compares && (r.mode.unicode || !isByte || c < '\x80')
  | .shorthand negated => !r.mode.unicode && !negated
  | .wordEdge => !r.mode.unicode
  | .textEdge => true

/-- Reads one part that begins with a given sign.  An opening brace would begin a number of
repetitions, but the value of a field has no closing brace. -/
def step? (r : Reading) (sign : Char) (t : Text) : Option (Reading × Text) :=
  match sign with
  | '(' => r.group? t
  | ')' => r.leave?.map (·, t)
  | '|' => some ({ r with inner := r.inner.next }, t)
  | '?' => r.again? t
  | '*' => r.again? t
  | '+' => r.again? t
  | '{' => none
  | '[' => do
    let t ← classHead? r.mode t
    let (height, t) ← class? r.mode (t.length + 1) .start [] t
    some (r.add height, t)
  | '\\' => do
    let (e, t) ← escape? r.mode t
    if r.admits e then some (r.add 0, t) else none
  | '.' => if r.mode.unicode then some (r.add 0, t) else none
  | '^' => some (r.add 0, t)
  | '$' => some (r.add 0, t)
  | _ => if r.mode.compares then some (r.add 0, t) else none

/-- The height of a pattern of which a part has been read, in so many steps. -/
def height? : Nat → Reading → Text → Option Nat
  | 0, _, _ => none
  | n + 1, r, t =>
    match r.mode.skip t with
    | [] => if r.around.isEmpty then some r.inner.height else none
    | sign :: t =>
      match r.step? sign t with
      | some (r, t) => height? n r t
      | none => none

end Reading

def maxHeight : Nat := 250

def isPattern (t : Text) : Bool :=
  (Reading.start.height? (t.length + 1) t).any (· ≤ maxHeight)

def isExponent : Text → Bool
  | [] => true
  | c :: t =>
    let digits := match t with
      | '+' :: t => t
      | '-' :: t => t
      | t => t
    (c == 'e' || c == 'E') && !digits.isEmpty && digits.all Char.isDigit

def isNumber (t : Text) : Bool :=
  let words := ["inf".toList, "infinity".toList, "nan".toList]
  let (whole, rest) := t.span Char.isDigit
  let (places, rest) := match rest with
    | '.' :: u => u.span Char.isDigit
    | _ => ([], rest)
  words.contains (t.map Char.toLower) || (!(whole ++ places).isEmpty && isExponent rest)

/-- Whether a text can be the value of a field: a pattern, or a number.  A number with a plus is the
only one that is no pattern. -/
def isValue : Text → Bool
  | '+' :: t => isNumber t
  | t => isPattern t

end Pattern
end Log
end EnvTemplate
