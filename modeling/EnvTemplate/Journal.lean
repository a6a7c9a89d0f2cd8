import EnvTemplate.FileTree.Error
import EnvTemplate.Text.Utf8
import EnvTemplate.Toml.Value

/-!
What the program notes while it works.  The notes of a run stand in the order in which things
happened; how they are written, and which of them, is the business of the log.
-/
namespace EnvTemplate

/-- Something worth noting. -/
inductive Event
  | keptLiteral (var : Text)
  /-- A variable is about to be given the operand of its placeholder. -/
  | assigning (var value : Text)
  | refused (var : Text)
  /-- A value has no single text and was left out. -/
  | ignored (key : Text) (kind : Toml.Kind)
  | unreadable (dir : Bytes) (e : OsError)
  /-- The output of a template is about to be written. -/
  | rendered (template : Bytes)
  | published (count : Nat) (out : Bytes)
  deriving DecidableEq

abbrev Journal := List Event

end EnvTemplate
