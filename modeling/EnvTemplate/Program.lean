import EnvTemplate.CommandLine.Help
import EnvTemplate.CommandLine.Parser
import EnvTemplate.Settings
import EnvTemplate.Inputs
import EnvTemplate.Log.Line
import EnvTemplate.TemplateTree

/-!
The program as a function: from the words of its command line, its environment, its standard input
and the files to what it writes, the files it leaves and its exit code.
-/
namespace EnvTemplate
namespace Program

structure Start where
  args : List Bytes
  env : Environment
  stdin : Bytes
  tree : FileTree

structure Exit where
  code : Nat
  stdout : Bytes
  stderr : Text
  tree : FileTree

/-- The work of a run: the text for standard output or a failure, the files and the notes. -/
structure Work where
  result : Except Failure Text
  tree : FileTree
  journal : Journal

/-- The sources of variables, read in order: a later one overrides the earlier ones, and all of them
override the environment. -/
def store (inv : Invocation) (env : Environment) (base file : Vars) : Layered :=
  let empty : Layered := ⟨∅, env, !inv.isolated⟩
  ((empty.addAll base.toList).addAll file.toList).addAll inv.sets

def fileVars (inv : Invocation) (t : FileTree) : Except Failure (Vars × Journal) :=
  match inv.vars with
  | none => .ok (∅, [])
  | some p => (VariableFile.read t p).mapError (.within "load --vars".toList)

def rule (inv : Invocation) (settings : Settings) : UnsetRule :=
  if inv.keepUnset then .keep else settings.unset.getD .empty

def perform (inv : Invocation) (rule : UnsetRule) (store : Layered) (start : Start) : Work :=
  match inv.command with
  | .expand inputs output =>
    let r := Inputs.expand rule start.tree inputs start.stdin store
    match r.result, output with
    | .error f, _ => ⟨.error f, start.tree, r.journal⟩
    | .ok text, none => ⟨.ok text, start.tree, r.journal⟩
    | .ok text, some p =>
      let (written, tree) := replaceFile start.tree p text
      ⟨(written.map fun _ => []).mapError (.within ("write ".toList ++ p.display)), tree, r.journal⟩
  | .render templates out =>
    match TemplateTree.render rule templates out ⟨start.tree, store, []⟩ with
    | (.error f, w) => ⟨.error (f.within "render templates".toList), w.tree, w.journal⟩
    | (.ok count, w) => ⟨.ok [], w.tree, w.journal ++ [.published count out]⟩

def work (inv : Invocation) (start : Start) : Work :=
  match Settings.path? start.env with
  | .error f => ⟨.error (f.within "initialise context".toList), start.tree, []⟩
  | .ok path =>
    match Settings.read start.tree path with
    | .error f => ⟨.error (f.within "load config".toList), start.tree, []⟩
    | .ok (settings, settingsNotes) =>
      match fileVars inv start.tree with
      | .error f => ⟨.error f, start.tree, settingsNotes⟩
      | .ok (file, fileNotes) =>
        let w := perform inv (rule inv settings) (store inv start.env settings.vars file) start
        { w with journal := settingsNotes ++ fileNotes ++ w.journal }

/-- What the log and the report of a failure come to. -/
def finish (filter : Log.Filter) (w : Work) : Exit :=
  let log := Log.lines filter w.journal
  match w.result with
  | .ok text => ⟨0, Utf8.encode text, log, w.tree⟩
  | .error f => ⟨1, [], log ++ f.report, w.tree⟩

def run (start : Start) : Exit :=
  match CommandLine.parse start.args with
  | .ok inv =>
    finish (.ofRun inv.verbose (start.env.read? "RUST_LOG".toList)) (work inv start)
  | .error (.help topic) =>
    ⟨0, Utf8.encode (CommandLine.helpText topic).toList, [], start.tree⟩
  | .error .version => ⟨0, Utf8.encode CommandLine.versionText.toList, [], start.tree⟩
  | .error .usage => ⟨2, [], CommandLine.usageText.toList, start.tree⟩

end Program
end EnvTemplate
