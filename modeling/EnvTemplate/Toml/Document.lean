import EnvTemplate.Toml.Draft
import EnvTemplate.Toml.Moment

/-!
Reading a TOML document.  `read?` answers with the table of the whole document, or with `none` for a
text that is no document.
-/
namespace EnvTemplate
namespace Toml

def word? (w : Text) (t : Text) : Option Text :=
  if w.isPrefixOf t then some (t.drop w.length) else none

def tableOf? (entries : List (Key × Value)) : Option Value :=
  (entries.foldlM (fun (d : Draft) e => d.addValue e.1 e.2) Draft.empty).map Draft.toValue

mutual
/-- A value inside so many arrays and tables.  The number of steps bounds the depth of recursion. -/
def value? : Nat → Nat → Text → Option (Value × Text)
  | 0, _, _ => none
  | n + 1, depth, t =>
    match t with
    | '[' :: t =>
      if depth + 1 < nestingLimit then
        (items? n (depth + 1) t).map fun (vs, t) => (.array vs, t)
      else none
    | '{' :: t =>
      if depth + 1 < nestingLimit then do
        let (entries, t) ← entries? n (depth + 1) true t
        some (← tableOf? entries, t)
      else none
    | 't' :: _ => (word? ['t', 'r', 'u', 'e'] t).map (.boolean true, ·)
    | 'f' :: _ => (word? ['f', 'a', 'l', 's', 'e'] t).map (.boolean false, ·)
    | '"' :: _ => (string? t).map fun (s, t) => (.string s, t)
    | '\'' :: _ => (string? t).map fun (s, t) => (.string s, t)
    | _ => number? t

/-- The items of an array, behind its opening bracket or behind a comma. -/
def items? : Nat → Nat → Text → Option (List Value × Text)
  | 0, _, _ => none
  | n + 1, depth, t =>
    match skipVoid false t with
    | ']' :: t => some ([], t)
    | t => do
      let (v, t) ← value? n depth t
      match skipVoid false t with
      | ',' :: t =>
        let (vs, t) ← items? n depth t
        some (v :: vs, t)
      | ']' :: t => some ([v], t)
      | _ => none

def entries? : Nat → Nat → Bool → Text → Option (List (Key × Value) × Text)
  | 0, _, _, _ => none
  | n + 1, depth, isFirst, t =>
    match isFirst, skipBlanks t with
    | true, '}' :: t => some ([], t)
    | _, t => do
      let (key, t) ← key? t
      let (v, t) ← value? n depth (skipBlanks (← mark? '=' t))
      match skipBlanks t with
      | ',' :: t =>
        let (es, t) ← entries? n depth false t
        some ((key, v) :: es, t)
      | '}' :: t => some ([(key, v)], t)
      | _ => none
end

inductive Line
  | empty
  | entry (key : Key) (v : Value)
  | table (key : Key)
  | tables (key : Key)

/-- One line of a document and the lines after it.  A value may extend over several lines. -/
def line? (t : Text) : Option (Line × Text) :=
  match t with
  | '[' :: '[' :: t => do
    let (key, t) ← key? t
    let t ← lineEnd? (← mark? ']' (← mark? ']' t))
    some (.tables key, t)
  | '[' :: t => do
    let (key, t) ← key? t
    let t ← lineEnd? (← mark? ']' t)
    some (.table key, t)
  | t =>
    match lineEnd? t with
    | some t => some (.empty, t)
    | none => do
      let (key, t) ← key? t
      let t ← mark? '=' t
      let (v, t) ← value? (2 * t.length + 2) 0 (skipBlanks t)
      let t ← lineEnd? t
      some (.entry key v, t)

/-- A document that has been read up to a line.  The table that the lines belong to is still apart
from the others. -/
structure Reading where
  root : Draft
  current : Draft
  /-- The name of the current table; the document itself has none. -/
  name : Option Key
  inTables : Bool

namespace Reading

def start : Reading := ⟨.empty, .empty, none, false⟩

def close (r : Reading) : Option Draft :=
  match r.name with
  | none => some r.current
  | some key =>
    let put := if r.inTables then Draft.pushTable else Draft.putTable
    (r.root.within false (put key.last r.current) key.path).map (·.2)

def step (r : Reading) : Line → Option Reading
  | .empty => some r
  | .entry key v => do
    let current ← r.current.addValue key v
    some { r with current }
  | .table key => do
    let (current, root) ← (← r.close).within false (Draft.takeTable key.last) key.path
    some ⟨root, current, some key, false⟩
  | .tables key => do
    let (_, root) ← (← r.close).within false (Draft.openTables key.last) key.path
    some ⟨root, .empty, some key, true⟩

end Reading

def lines? : Nat → Reading → Text → Option Reading
  | 0, r, t => if t.isEmpty then some r else none
  | n + 1, r, t =>
    match skipBlanks t with
    | [] => some r
    | t => do
      let (l, t) ← line? t
      lines? n (← r.step l) t

def skipMark : Text → Text
  | '\uFEFF' :: t => t
  | t => t

def read? (t : Text) : Option Value := do
  let r ← lines? t.length Reading.start (skipMark t)
  let d ← r.close
  d.toValue.settle?

end Toml
end EnvTemplate
