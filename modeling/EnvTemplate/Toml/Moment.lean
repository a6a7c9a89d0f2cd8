import EnvTemplate.Toml.Scalar

/-!
Moments that are written as tables.  A table whose first entry has a reserved key stands for the
moment that the text of this entry tells, and the other entries count for nothing.  `settle?` puts
moments in the place of such tables and the entries of the others in the order of their keys.
-/
namespace EnvTemplate
namespace Toml

/-- The key whose entry makes a table a moment. -/
def momentKey : Text := "$__toml_private_datetime".toList

namespace Value

/-- The value under the reserved key, if that is the key of the first entry. -/
def momentValue? : List (Text × Value) → Option Value
  | (key, v) :: _ => if key = momentKey then some v else none
  | [] => none

mutual
def settle? : Value → Option Value
  | array items => (settleItems? items).map array
  | table entries =>
    match momentValue? entries with
    | some (string text) => if datetime? text = some [] then some datetime else none
    | some _ => none
    | none => (settleEntries? entries).map fun entries => table (sortEntries entries)
  | v => some v

def settleItems? : List Value → Option (List Value)
  | [] => some []
  | v :: vs => do
    let v ← settle? v
    let vs ← settleItems? vs
    some (v :: vs)

def settleEntries? : List (Text × Value) → Option (List (Text × Value))
  | [] => some []
  | (key, v) :: es => do
    let v ← settle? v
    let es ← settleEntries? es
    some ((key, v) :: es)
end

end Value
end Toml
end EnvTemplate
