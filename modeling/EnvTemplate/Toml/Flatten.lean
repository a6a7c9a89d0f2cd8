import EnvTemplate.VariableStore

/-!
Flattening a TOML value into variables.  The name of a leaf is made of the keys that lead to it,
joined by underscores.  Arrays and datetimes have no single text: they are noted and left out.
-/
namespace EnvTemplate
namespace Toml

/-- The name of an entry under a name.  An empty name adds nothing. -/
def joinKey (name key : Text) : Text := if name.isEmpty then key else name ++ '_' :: key

namespace Value

def text? : Value → Option Text
  | string text => some text
  | integer n => some ((if n < 0 then ['-'] else []) ++ Nat.toDigits 10 n.natAbs)
  | float x => some x.text
  | boolean b => some (if b then "true".toList else "false".toList)
  | datetime => none
  | array _ => none
  | table _ => none

mutual
def flatten (name : Text) : Value → Vars → Vars × Journal
  | table entries, vars => flattenEntries name entries vars
  | v, vars =>
    match v.text? with
    | some text => (vars.insert name text, [])
    | none => (vars, [.ignored name v.kind])

/-- Adds the leaves of entries in their order, so that of two leaves with one name the later stays. -/
def flattenEntries (name : Text) : List (Text × Value) → Vars → Vars × Journal
  | [], vars => (vars, [])
  | (key, v) :: entries, vars =>
    let (vars, journal) := flatten (joinKey name key) v vars
    let (vars, rest) := flattenEntries name entries vars
    (vars, journal ++ rest)
end

end Value
end Toml
end EnvTemplate
