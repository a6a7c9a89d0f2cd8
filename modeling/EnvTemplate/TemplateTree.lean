import EnvTemplate.Stage

/-!
Rendering a tree of templates.  Every file under a directory whose name ends with `.tpl` is expanded
into a stage, at the same path without that ending, and the stage is then published.

The tree is walked while it is rendered: a directory is listed when the walk comes to it, its entries
in the order of their names.  Links in it are not followed.  A directory that cannot be listed is
noted and passed over.
-/
namespace EnvTemplate
namespace TemplateTree

def ending : Bytes := Path.ofText ".tpl".toList

/-- Whether a name is that of a template: something and the ending. -/
def isTemplate (name : Bytes) : Bool := ending.isSuffixOf name && name != ending

/-- The name of the output of a template.  A single dot before the ending is not a name but leads to
the parent directory. -/
def outputName (name : Bytes) : Bytes :=
  let stem := name.take (name.length - ending.length)
  if stem = Path.dot then Path.dotDot else stem

structure Found where
  /-- The path to what was found. -/
  path : Path
  /-- The directory that it is in, from the directory of the templates. -/
  dir : Path
  name : Bytes
  entry : Entry

namespace Found

def relative (f : Found) : Path := f.dir.join f.name

def output (f : Found) (stage : Path) : Path := stage.join (f.dir.join (outputName f.name))

end Found

def list (t : FileTree) (path relative : Path) : Except OsError (List Found) := do
  match ← t.status false path with
  | (loc, .dir) => .ok ((t.children loc).map fun (name, e) => ⟨path.join name, relative, name, e⟩)
  | _ => .error .notDirectory

def listed (t : FileTree) (path relative : Path) : List Found × Journal :=
  match list t path relative with
  | .ok found => (found, [])
  | .error e => ([], [.unreadable path e])

structure World (σ : Type) where
  tree : FileTree
  store : σ
  journal : Journal

variable {σ : Type} [VariableStore σ]

def renderFile (rule : UnsetRule) (stage : Path) (f : Found) (w : World σ) :
    Except Failure Unit × World σ :=
  match w.tree.readText f.path with
  | .error e => (.error (.ofOs ("read template ".toList ++ f.path.display) e), w)
  | .ok source =>
    let r := (expand rule source w.store).during ("expand ".toList ++ f.path.display)
    let w := { w with store := r.store, journal := w.journal ++ r.journal }
    match r.result with
    | .error e => (.error e, w)
    | .ok text =>
      let output := f.output stage
      let dir := (output.parent?).getD []
      match w.tree.makeDirs dir with
      | (.error e, tree) =>
        (.error (.ofOs ("create output subdir ".toList ++ dir.display) e), { w with tree })
      | (.ok (), tree) =>
        let w := { w with tree, journal := w.journal ++ [.rendered f.relative] }
        match tree.write output (Utf8.encode text) with
        | .error e => (.error (.ofOs ("write ".toList ++ output.display) e), w)
        | .ok tree => (.ok (), { w with tree })

/-- Renders what the walk has still to come to, and counts the templates. -/
def walk (rule : UnsetRule) (stage : Path) :
    Nat → List Found → Nat → World σ → Except Failure Nat × World σ
  | 0, _, count, w => (.ok count, w)
  | _, [], count, w => (.ok count, w)
  | n + 1, f :: rest, count, w =>
    match f.entry with
    | .dir =>
      let (found, notes) := listed w.tree f.path f.relative
      walk rule stage n (found ++ rest) count { w with journal := w.journal ++ notes }
    | .link _ => walk rule stage n rest count w
    | .file _ =>
      if isTemplate f.name then
        match renderFile rule stage f w with
        | (.ok (), w) => walk rule stage n rest (count + 1) w
        | (.error e, w) => (.error e, w)
      else walk rule stage n rest count w

/-- A bound for the steps of a walk.  Where the stage is among the templates the walk may come to the
output of a template, but each time a template loses an ending, and each directory is listed once. -/
def bound (t : FileTree) : Nat := Nat.pow (t.extent + 2) 4

/-- Renders all templates under a directory and publishes the output. -/
def render (rule : UnsetRule) (templates out : Path) (w : World σ) :
    Except Failure Nat × World σ :=
  if !w.tree.isDir templates then (.error ⟨[], .noTemplates templates⟩, w)
  else
    match Stage.prepare w.tree out with
    | (.error f, tree) => (.error (f.within "begin transaction".toList), { w with tree })
    | (.ok x, tree) =>
      let (found, notes) := listed tree templates []
      let w := { w with tree, journal := w.journal ++ notes }
      match walk rule x.path (bound tree) found 0 w with
      | (.error f, w) => (.error f, { w with tree := x.discard w.tree })
      | (.ok count, w) =>
        match x.publish w.tree with
        | (.error f, tree) => (.error (f.within "commit transaction".toList), { w with tree })
        | (.ok (), tree) => (.ok count, { w with tree })

end TemplateTree
end EnvTemplate
