import EnvTemplate.Failure
import EnvTemplate.FileTree.Operation
import EnvTemplate.Toml.Document
import EnvTemplate.Toml.Flatten

/-!
Files that hold variables as TOML.
-/
namespace EnvTemplate
namespace VariableFile

def parse (p : Path) (text : Text) : Except Failure Toml.Value :=
  match Toml.read? text with
  | some v => .ok v
  | none => .error ⟨["parse ".toList ++ p.display], .toml⟩

def read (t : FileTree) (p : Path) : Except Failure (Vars × Journal) := do
  let text ← (t.readText p).mapError (.ofOs ("read ".toList ++ p.display))
  let v ← parse p text
  .ok (v.flatten [] ∅)

end VariableFile
end EnvTemplate
