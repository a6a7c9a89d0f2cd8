import EnvTemplate.VariableFile

/-!
The configuration file: where it is and what it says.

    unset = "keep"      # or "empty"

    [vars]
    APP_ENV = "dev"
    [vars.db]
    port = 5432         # the variable db_port
-/
namespace EnvTemplate

structure Settings where
  unset : Option UnsetRule
  vars : Vars
  deriving DecidableEq

namespace Settings

def default : Settings := ⟨none, ∅⟩

/-- The directory of configuration files: the one that the environment names, or one in the home
directory. -/
def base? (env : Environment) : Except VariableError Path :=
  match env.read? "XDG_CONFIG_HOME".toList with
  | some (c :: text) => .ok (Path.ofText (c :: text))
  | _ =>
    match env.bytes? "HOME".toList with
    | none => .error .missing
    | some home =>
      match Utf8.decode? home with
      | none => .error (.notText home)
      | some _ => .ok (Path.join home (Path.ofText ".config".toList))

def path? (env : Environment) : Except Failure Path :=
  match base? env with
  | .ok base =>
    .ok ((base.join (Path.ofText "oxidize-env".toList)).join (Path.ofText "config.toml".toList))
  | .error e => .error ⟨["neither $XDG_CONFIG_HOME nor $HOME is set".toList], .environment e⟩

def rule? (word : Text) : Except Failure UnsetRule :=
  if word = "empty".toList then .ok .empty
  else if word = "keep".toList then .ok .keep
  else .error ⟨[], .unknownRule word⟩

def unset? (v : Toml.Value) : Except Failure (Option UnsetRule) :=
  match v.get? "unset".toList with
  | none => .ok none
  | some (.string word) => (rule? word).map some
  | some other => .error ⟨[], .ruleKind other.kind⟩

/-- Reads a configuration file.  One that is missing says nothing. -/
def read (t : FileTree) (p : Path) : Except Failure (Settings × Journal) :=
  match t.readText p with
  | .error .notFound => .ok (default, [])
  | .error e => .error (.ofOs ("read ".toList ++ p.display) e)
  | .ok text => do
    let v ← VariableFile.parse p text
    let unset ← unset? v
    match v.get? "vars".toList with
    | none => .ok (⟨unset, ∅⟩, [])
    | some vars =>
      let (vars, journal) := vars.flatten [] ∅
      .ok (⟨unset, vars⟩, journal)

end Settings
end EnvTemplate
