import EnvTemplate.Path

/-!
What a command line asks for.
-/
namespace EnvTemplate

inductive CommandName
  | expand
  | render
  deriving DecidableEq

inductive Command
  | expand (inputs : List Path) (output : Option Path)
  | render (templates out : Path)
  deriving DecidableEq

structure Invocation where
  command : Command
  vars : Option Path
  sets : List (Text × Text)
  isolated : Bool
  keepUnset : Bool
  verbose : Bool
  deriving DecidableEq

inductive Topic
  | program
  | command (name : CommandName)
  | help
  deriving DecidableEq

inductive Stop
  | help (topic : Topic)
  | version
  | usage
  deriving DecidableEq

end EnvTemplate
