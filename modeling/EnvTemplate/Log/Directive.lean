import EnvTemplate.Log.Pattern
import EnvTemplate.Log.Record

/-!
The directives of a filter.  A directive sets the least weight of the records that it concerns: those
whose target begins with its target and, if it names a field, that have this field.  It is written

    level
    target
    target=level
    target[span]=level
    target[span{field}]=level
    target[span{field=value}]=level

where everything but the brackets can be left out.  A directive for a span or for the value of a field
concerns no record here, because nothing is recorded within a span.
-/
namespace EnvTemplate
namespace Log

/-- The least weight of some records that are written; `none` for none of them. -/
structure Directive where
  target : Text
  field : Option Text
  level : Option Level
  deriving DecidableEq

namespace Directive

/-- Whether a directive concerns a record.  The message is a field of every record. -/
def concerns (d : Directive) (r : Record) : Bool :=
  d.target.isPrefixOf r.target &&
    d.field.all fun name => name == "message".toList || r.fields.any (·.1 == name)

/-- How specific a directive is: first by the size of its target, then by whether it names a field.
Of equally specific ones the order of their texts decides. -/
def specificity (d e : Directive) : Ordering :=
  (compare d.target.byteSize e.target.byteSize).then <|
    (compare d.field.isSome e.field.isSome).then <|
      (compare d.target e.target).then (compare d.field e.field)

def levelWords : List (Text × Option Level) :=
  [("off".toList, none), ("error".toList, some .error), ("warn".toList, some .warn),
    ("info".toList, some .info), ("debug".toList, some .debug), ("trace".toList, some .trace)]

def level? (word : Text) : Option (Option Level) :=
  let digits := match word with
    | '+' :: t => t
    | t => t
  if !digits.isEmpty && digits.all Char.isDigit then
    (levelWords[digits.foldl (fun n c => 10 * n + (c.toNat - 48)) 0]?).map (·.2)
  else levelWords.lookup (word.map Char.toLower)

/-- How a directive is divided.  Its parts are given by their positions. -/
inductive Division
  | word
  /-- It has a target up to a position, perhaps a span and a field, and perhaps a level from a position
  on. -/
  | parts (target : Nat) (hasSpan : Bool) (field : Option (Nat × Nat)) (level : Option Nat)

/-- Divides what begins at a position behind the target and the brackets. -/
def divideEnd? (pos target : Nat) (hasSpan : Bool) (field : Option (Nat × Nat)) :
    Text → Option Division
  | [] => some (.parts target hasSpan field none)
  | '=' :: _ => some (.parts target hasSpan field (some (pos + 1)))
  | _ => none

def divideBrackets? (pos target : Nat) (t : Text) : Option Division :=
  let span : Text := t.takeWhile fun c => c != ']' && c != '{'
  let spanEnd := pos + span.byteSize
  match t.drop span.length with
  | ']' :: t => divideEnd? (spanEnd + 1) target true none t
  | '{' :: t =>
    match Text.splitAt? '}' t with
    | some (c :: field, ']' :: t) =>
      let fieldEnd := spanEnd + 1 + Text.byteSize (c :: field)
      divideEnd? (fieldEnd + 2) target (!span.isEmpty) (some (spanEnd + 1, fieldEnd)) t
    | _ => none
  | _ => none

def divide? : Text → Option Division
  | [] => none
  | '[' :: t => divideBrackets? 1 0 t
  | c :: t =>
    if c == '-' || c == ':' || c == '_' || Alphabetic.orNumeral c then
      let target : Text := c :: t.takeWhile fun c => c != '=' && c != '['
      let targetEnd := target.byteSize
      match (c :: t).drop target.length with
      | [] => some .word
      | '[' :: t => divideBrackets? (targetEnd + 1) targetEnd t
      | t => divideEnd? targetEnd targetEnd false none t
    else none

/-- The level behind an equals sign; nothing there stands for all levels. -/
def levelOrAll? : Text → Option (Option Level)
  | [] => some (some .trace)
  | word => level? word

def fieldName? (t : Text) : Option (Option Text) :=
  match Text.splitAt? '=' t with
  | none => some (some t)
  | some (_, value) => if Pattern.isValue (value.takeWhile (· != '=')) then some none else none

/-- Reads a directive; one for a span or a value concerns no record and is left out.  White space
around a directive does not count where it is divided, but the positions of its parts are then taken
from its beginning. -/
def parse? (t : Text) : Option (Option Directive) := do
  match ← divide? (Space.trim t) with
  | .word =>
    match level? t with
    | some level => some (some ⟨[], none, level⟩)
    | none => some (some ⟨t, none, some .trace⟩)
  | .parts target hasSpan field level =>
    let target ← Text.slice? 0 target t
    let field ← match field with
      | none => some none
      | some (first, last) => (Text.slice? first last t).map some
    let level ← match level with
      | none => some (some .trace)
      | some first => (Text.splitBytes? first t).bind fun (_, word) => levelOrAll? word
    match field with
    | none => some (if hasSpan then none else some ⟨target, none, level⟩)
    | some field =>
      let name ← fieldName? field
      some (if hasSpan then none else name.map fun name => ⟨target, some name, level⟩)

end Directive
end Log
end EnvTemplate
