import EnvTemplate.Name

/-!
Assignments `NAME=VALUE` on the command line.
-/
namespace EnvTemplate

inductive AssignmentError
  | noEquals (text : Text)
  | invalidName (name : Text)
  deriving DecidableEq

namespace AssignmentError

def message : AssignmentError → Text
  | noEquals text => "expected NAME=VALUE, got '".toList ++ text ++ ['\'']
  | invalidName name => "invalid variable name '".toList ++ name ++ ['\'']

end AssignmentError

namespace Assignment

def parse (text : Text) : Except AssignmentError (Text × Text) :=
  match text.splitAt? '=' with
  | none => .error (.noEquals text)
  | some (name, value) =>
    if Name.isValid name then .ok (name, value) else .error (.invalidName name)

end Assignment
end EnvTemplate
