import EnvTemplate.Toml.Lexeme
import EnvTemplate.Toml.Value

/-!
Tables while a document is read.  A table remembers how it came about, because that decides which
later headers and keys may add to it:

* a table that a header names belongs to that header alone, but a table that so far is only a step
  on the way to others may still be named once;
* keys with points may only enter tables that are such steps, and add entries only to the table
  whose entries were begun with points.
-/
namespace EnvTemplate
namespace Toml

/-- How a table came about. -/
structure Origin where
  /-- It was a step on the way to another table. -/
  implicit : Bool
  /-- It was a step in a key with points. -/
  dotted : Bool
  deriving DecidableEq

inductive Draft
  | value (v : Value)
  | table (origin : Origin) (entries : List (Text × Draft))
  /-- The tables of an array of tables, the latest first. -/
  | tables (items : List Draft)

namespace Draft

def empty : Draft := table ⟨false, false⟩ []

def replace (key : Text) (d : Draft) (entries : List (Text × Draft)) : List (Text × Draft) :=
  entries.map fun e => if e.1 = key then (key, d) else e

/-- Changes the table that a path leads to, and says what the change found.  Missing tables on the way
are made; a step into an array of tables leads to its latest table. -/
def within {α : Type} (dotted : Bool) (change : Draft → Option (α × Draft)) :
    List Text → Draft → Option (α × Draft)
  | [], d => change d
  | key :: path, .table origin entries =>
    match entries.lookup key with
    | none =>
      (within dotted change path (.table ⟨true, dotted⟩ [])).map fun (found, d) =>
        (found, .table origin (entries ++ [(key, d)]))
    | some (.tables (latest :: earlier)) =>
      (within dotted change path latest).map fun (found, d) =>
        (found, .table origin (replace key (.tables (d :: earlier)) entries))
    | some (.table o es) =>
      if dotted && !o.implicit then none
      else
        (within dotted change path (.table o es)).map fun (found, d) =>
          (found, .table origin (replace key d entries))
    | some _ => none
  | _ :: _, _ => none

/-- Adds a value to a table.  The last part of a key with points goes into a table of such keys, that
of another key into a table of its own, and no key is given twice. -/
def insert (isDotted : Bool) (key : Text) (v : Value) : Draft → Option (Unit × Draft)
  | .table origin entries =>
    if origin.dotted = isDotted ∧ (entries.lookup key).isNone then
      some ((), .table origin (entries ++ [(key, .value v)]))
    else none
  | _ => none

def addValue (key : Key) (v : Value) (d : Draft) : Option Draft :=
  (d.within true (insert (!key.path.isEmpty) key.last v) key.path).map (·.2)

/-- Takes the table that a header names out of its parent, to be filled. -/
def takeTable (key : Text) : Draft → Option (Draft × Draft)
  | .table origin entries =>
    match entries.lookup key with
    | none => some (empty, .table origin entries)
    | some (.table o es) =>
      if o.implicit && !o.dotted then
        some (.table ⟨false, false⟩ es, .table origin (entries.filter (·.1 != key)))
      else none
    | some _ => none
  | _ => none

def putTable (key : Text) (d : Draft) : Draft → Option (Unit × Draft)
  | .table origin entries => some ((), .table origin (entries ++ [(key, d)]))
  | _ => none

def openTables (key : Text) : Draft → Option (Unit × Draft)
  | .table origin entries =>
    match entries.lookup key with
    | none => some ((), .table origin (entries ++ [(key, .tables [])]))
    | some (.tables _) => some ((), .table origin entries)
    | some _ => none
  | _ => none

def pushTable (key : Text) (d : Draft) : Draft → Option (Unit × Draft)
  | .table origin entries =>
    match entries.lookup key with
    | some (.tables items) => some ((), .table origin (replace key (.tables (d :: items)) entries))
    | _ => none
  | _ => none

mutual
/-- The value of a finished draft, with the entries of a table in the order in which they came. -/
def toValue : Draft → Value
  | .value v => v
  | .table _ entries => .table (toEntries entries)
  | .tables items => .array (toValues items).reverse

def toValues : List Draft → List Value
  | [] => []
  | d :: ds => toValue d :: toValues ds

def toEntries : List (Text × Draft) → List (Text × Value)
  | [] => []
  | (key, d) :: es => (key, toValue d) :: toEntries es
end

end Draft
end Toml
end EnvTemplate
