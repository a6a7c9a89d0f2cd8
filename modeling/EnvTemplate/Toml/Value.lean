import EnvTemplate.Number.Binary64

/-!
The values of a TOML document.  In a document that has been read, the entries of a table stand in the
order of their keys, by the bytes of the keys' UTF-8 form, which is the order of their characters.
-/
namespace EnvTemplate
namespace Toml

/-- A TOML value.  Nothing ever asks which moment a datetime is. -/
inductive Value
  | string (text : Text)
  | integer (value : Int)
  | float (value : Binary64)
  | boolean (value : Bool)
  | datetime
  | array (items : List Value)
  | table (entries : List (Text × Value))

inductive Kind
  | string
  | integer
  | float
  | boolean
  | datetime
  | array
  | table
  deriving DecidableEq

def Kind.name : Kind → Text
  | string => "string".toList
  | integer => "integer".toList
  | float => "float".toList
  | boolean => "boolean".toList
  | datetime => "datetime".toList
  | array => "array".toList
  | table => "table".toList

namespace Value

def kind : Value → Kind
  | string _ => .string
  | integer _ => .integer
  | float _ => .float
  | boolean _ => .boolean
  | datetime => .datetime
  | array _ => .array
  | table _ => .table

def get? (key : Text) : Value → Option Value
  | table entries => entries.lookup key
  | _ => none

end Value

def sortEntries {α : Type} (entries : List (Text × α)) : List (Text × α) :=
  entries.mergeSort fun a b => (compare a.1 b.1).isLE

end Toml
end EnvTemplate
