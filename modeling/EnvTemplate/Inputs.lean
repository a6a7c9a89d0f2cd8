import EnvTemplate.Failure
import EnvTemplate.FileTree.Operation

/-!
Expanding input files one after another.  The name `-` stands for standard input, which can be read
once and is empty after that.
-/
namespace EnvTemplate
namespace Inputs

def standard : Path := [0x2D]

def source (tree : FileTree) (stdin : Bytes) (input : Path) : Except Failure Text :=
  if input = standard then
    match Utf8.decode? stdin with
    | some text => .ok text
    | none => .error (.ofOs "read stdin".toList .notUtf8)
  else (tree.readText input).mapError (.ofOs ("read ".toList ++ input.display))

variable {σ : Type} [VariableStore σ]

/-- Expands inputs in their order.  What one input assigns, the next one sees. -/
def expandAll (rule : UnsetRule) (tree : FileTree) :
    List Path → Bytes → σ → Outcome Failure σ
  | [], _, store => ⟨.ok [], store, []⟩
  | input :: inputs, stdin, store =>
    match source tree stdin input with
    | .error f => ⟨.error f, store, []⟩
    | .ok text =>
      ((expand rule text store).during ("expand ".toList ++ input.display)).andThen
        (expandAll rule tree inputs (if input = standard then [] else stdin))

def expand (rule : UnsetRule) (tree : FileTree) (inputs : List Path) (stdin : Bytes)
    (store : σ) : Outcome Failure σ :=
  expandAll rule tree (if inputs.isEmpty then [standard] else inputs) stdin store

end Inputs
end EnvTemplate
