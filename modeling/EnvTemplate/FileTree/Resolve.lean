import EnvTemplate.FileTree.Basic

/-!
Where a path leads in a tree.  Names are taken one after another; a link is replaced by the path it
points to, unless it is the last name and the link itself is meant.
-/
namespace EnvTemplate
namespace FileTree

def maxName : Nat := 255

def maxPath : Nat := 4095

def maxLinks : Nat := 40

/-- Where a path leads: to something, or to a name that a directory lacks. -/
inductive Spot
  | present (loc : Loc) (e : Entry)
  | absent (dir : Loc) (name : Bytes)
  deriving DecidableEq

/-- The names to follow for a path.  A slash at the end asks for a directory, as one more step to the
directory itself would. -/
def steps (p : Path) : List Bytes :=
  p.names ++ if p.endsWithSlash then [Path.dot] else []

def origin (dir : Loc) (p : Path) : Loc := if p.isAbsolute then [] else dir

def absolute (t : FileTree) (p : Path) : Path := (Path.fromRoot t.cwd).join p

/-- Follows names from a directory.  `onLink` goes on at a link. -/
def descend (t : FileTree) (keepLast : Bool) (onLink : Loc → List Bytes → Except OsError Spot) :
    Loc → List Bytes → Except OsError Spot
  | dir, [] => .ok (.present dir .dir)
  | dir, name :: rest =>
    if name = Path.dot then t.descend keepLast onLink dir rest
    else if name = Path.dotDot then t.descend keepLast onLink dir.dropLast rest
    else if maxName < name.length then .error .nameTooLong
    else
      match t.get? (dir ++ [name]) with
      | none => if rest.isEmpty then .ok (.absent dir name) else .error .notFound
      | some .dir => t.descend keepLast onLink (dir ++ [name]) rest
      | some (.file content) =>
        if rest.isEmpty then .ok (.present (dir ++ [name]) (.file content))
        else .error .notDirectory
      | some (.link target) =>
        if rest.isEmpty && keepLast then .ok (.present (dir ++ [name]) (.link target))
        else onLink (origin dir target) (steps target ++ rest)

/-- Follows names and up to so many links from a directory. -/
def follow (t : FileTree) (keepLast : Bool) : Nat → Loc → List Bytes → Except OsError Spot
  | 0 => t.descend keepLast fun _ _ => .error .tooManyLinks
  | n + 1 => t.descend keepLast (follow t keepLast n)

/-- A path that leads anywhere has a name and no NUL, and is not too long as it is written. -/
def checkPath (p : Path) : Except OsError Unit :=
  if p.contains 0 then .error .nulInPath
  else if p.isEmpty then .error .notFound
  else if maxPath < p.length then .error .nameTooLong
  else .ok ()

/-- Where a path leads.  With `keepLast`, a link at its end is not followed. -/
def resolve (t : FileTree) (keepLast : Bool) (p : Path) : Except OsError Spot := do
  checkPath p
  t.follow keepLast maxLinks (origin t.cwd p) (steps p)

def status (t : FileTree) (keepLast : Bool) (p : Path) : Except OsError (Loc × Entry) := do
  match ← t.resolve keepLast p with
  | .present loc e => .ok (loc, e)
  | .absent _ _ => .error .notFound

def isDir (t : FileTree) (p : Path) : Bool :=
  match t.status false p with
  | .ok (_, .dir) => true
  | _ => false

inductive LastStep
  | name (n : Bytes)
  | dot
  | dotDot
  | root
  deriving DecidableEq

/-- The directory that the last step of a path is taken in, and that step. -/
structure Place where
  dir : Loc
  last : LastStep
  /-- Whether a slash follows the last step. -/
  slash : Bool

/-- The place that a path names, whether or not something stands there. -/
def place (t : FileTree) (p : Path) : Except OsError Place := do
  checkPath p
  match p.names.getLast? with
  | none => .ok ⟨[], .root, p.endsWithSlash⟩
  | some last =>
    match ← t.follow false maxLinks (origin t.cwd p) (p.names.dropLast ++ [Path.dot]) with
    | .present dir _ =>
      let step :=
        if last = Path.dot then .dot else if last = Path.dotDot then .dotDot else .name last
      .ok ⟨dir, step, p.endsWithSlash⟩
    | .absent _ _ => .error .notFound

end FileTree
end EnvTemplate
