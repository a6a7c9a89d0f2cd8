import EnvTemplate.Failure
import EnvTemplate.FileTree.Operation

/-!
Publishing at once.  A tree is made ready in a stage beside its target and then takes the target's
place in one step, and so does a file.
-/
namespace EnvTemplate

/-- A directory that is to replace what stands at a target. -/
structure Stage where
  path : Path
  target : Path
  deriving DecidableEq

def makeParent (t : FileTree) (target : Path) : Except Failure Unit × FileTree :=
  let (r, t) := t.makeDirs target.beside
  (r.mapError (.ofOs ("create parent dir ".toList ++ Path.display target.beside)), t)

/-- A path from the root that leads to a made-up name beside a target. -/
def freshBeside (t : FileTree) (target : Path) (start : Bytes) : Path × FileTree :=
  let dir :=
    match t.status false target.beside with
    | .ok (loc, _) => loc
    | .error _ => t.cwd
  let (name, t) := t.freshName dir start
  ((t.absolute target.beside).join name, t)

namespace Stage

def nameStart : Bytes := Path.ofText ".stage.".toList

def prepare (t : FileTree) (target : Path) : Except Failure Stage × FileTree :=
  match makeParent t target with
  | (.error f, t) => (.error f, t)
  | (.ok (), t) =>
    let (path, t) := freshBeside t target nameStart
    match t.makeDir path with
    | .error e => (.error ⟨["create staging dir".toList], .osAt e path⟩, t)
    | .ok t => (.ok ⟨path, target⟩, t)

/-- Removes what stands at the target, if anything does. -/
def clearTarget (x : Stage) (t : FileTree) : Except Failure Unit × FileTree :=
  match t.status true x.target with
  | .error _ => (.ok (), t)
  | .ok _ =>
    let (r, t) := t.remove x.target
    (r.mapError fun e =>
      (Failure.ofOs ("remove ".toList ++ x.target.display) e).within
        "remove previous output".toList, t)

/-- Puts the stage in the place of the target.  After a failure the stage stays. -/
def publish (x : Stage) (t : FileTree) : Except Failure Unit × FileTree :=
  match x.clearTarget t with
  | (.error f, t) => (.error f, t)
  | (.ok (), t) =>
    match t.rename x.path x.target with
    | .ok t => (.ok (), t)
    | .error e =>
      (.error (.ofOs ("rename ".toList ++ x.path.display ++ " -> ".toList ++ x.target.display) e),
        t)

def discard (x : Stage) (t : FileTree) : FileTree := (t.remove x.path).2

end Stage

def temporaryStart : Bytes := Path.ofText ".tmp".toList

/-- Why a file cannot be given the name that a path asks for. -/
def persistError : OsError → OsError
  | .nulInPath => .invalid
  | e => e

/-- Writes a file at once: to a temporary file beside it, which then takes its name. -/
def replaceFile (t : FileTree) (p : Path) (text : Text) : Except Failure Unit × FileTree :=
  match makeParent t p with
  | (.error f, t) => (.error f, t)
  | (.ok (), t) =>
    let (temporary, t) := freshBeside t p temporaryStart
    match t.create temporary (.file (Utf8.encode text)) with
    | .error e => (.error ⟨["create temp file".toList], .osAt e temporary⟩, t)
    | .ok written =>
      match (written.rename temporary p).mapError persistError with
      | .ok t => (.ok (), t)
      | .error e =>
        (.error ((Failure.ofOs ("failed to persist temporary file: ".toList ++ e.message) e).within
          ("persist ".toList ++ p.display)), (written.remove temporary).2)

end EnvTemplate
