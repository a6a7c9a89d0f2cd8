import EnvTemplate.FileTree.Resolve
import EnvTemplate.Text.Hex

/-!
The operations on a tree of files.  One that fails leaves the tree as it was, except where it answers
with the tree that it leaves.
-/
namespace EnvTemplate
namespace FileTree

def read (t : FileTree) (p : Path) : Except OsError Bytes := do
  match ← t.status false p with
  | (_, .file content) => .ok content
  | _ => .error .isDirectory

def readText (t : FileTree) (p : Path) : Except OsError Text := do
  match Utf8.decode? (← t.read p) with
  | some text => .ok text
  | none => .error .notUtf8

def write (t : FileTree) (p : Path) (content : Bytes) : Except OsError FileTree := do
  if (← t.place p).slash then .error .isDirectory
  else
    match ← t.resolve false p with
    | .present _ .dir => .error .isDirectory
    | .present loc _ => .ok (t.put loc (.file content))
    | .absent dir name => .ok (t.put (dir ++ [name]) (.file content))

def create (t : FileTree) (p : Path) (e : Entry) : Except OsError FileTree := do
  let place ← t.place p
  match place.last with
  | .name n =>
    if maxName < n.length then .error .nameTooLong
    else if (t.get? (place.dir ++ [n])).isSome then .error .alreadyExists
    else .ok (t.put (place.dir ++ [n]) e)
  | _ => .error .alreadyExists

def makeDir (t : FileTree) (p : Path) : Except OsError FileTree := t.create p .dir

/-- Makes a directory and those it is in, as far as they are missing.  The directories made before a
failure stay. -/
def makeDirs (t : FileTree) (p : Path) : Except OsError Unit × FileTree := go p.length t p
where
  go (n : Nat) (t : FileTree) (p : Path) : Except OsError Unit × FileTree :=
    if p.isEmpty then (.ok (), t)
    else
      match t.makeDir p with
      | .ok t => (.ok (), t)
      | .error .notFound =>
        match n, p.parent? with
        | n + 1, some q =>
          match go n t q with
          | (.ok (), t) =>
            match t.makeDir p with
            | .ok t => (.ok (), t)
            | .error e => (if t.isDir p then .ok () else .error e, t)
          | failed => failed
        | _, _ => (.error .notFound, t)
      | .error e => (if t.isDir p then .ok () else .error e, t)

def removeFile (t : FileTree) (p : Path) : Except OsError FileTree := do
  let place ← t.place p
  match place.last with
  | .name n =>
    match t.get? (place.dir ++ [n]) with
    | none => .error .notFound
    | some .dir => .error .isDirectory
    | some _ => if place.slash then .error .notDirectory else .ok (t.clear (place.dir ++ [n]))
  | _ => .error .isDirectory

def removeEmptyDir (t : FileTree) (p : Path) : Except OsError FileTree := do
  let place ← t.place p
  match place.last with
  | .name n =>
    match t.get? (place.dir ++ [n]) with
    | none => .error .notFound
    | some .dir =>
      if (t.children (place.dir ++ [n])).isEmpty then .ok (t.clear (place.dir ++ [n]))
      else .error .notEmpty
    | some _ => .error .notDirectory
  | .dot => .error .invalid
  | .dotDot => .error .notEmpty
  | .root => .error .busy

/-- Removes a directory: first all that is in it, then the directory, which may be gone by then. -/
def removeTree (t : FileTree) (p : Path) : Except OsError Unit × FileTree :=
  match t.status false p with
  | .error e => (.error e, t)
  | .ok (loc, _) =>
    let t := t.clearInside loc
    match t.removeEmptyDir p with
    | .ok t => (.ok (), t)
    | .error .notFound => (.ok (), t)
    | .error e => (.error e, t)

def remove (t : FileTree) (p : Path) : Except OsError Unit × FileTree :=
  match t.status true p with
  | .error e => (.error e, t)
  | .ok (_, .dir) => t.removeTree p
  | .ok _ =>
    match t.removeFile p with
    | .ok t => (.ok (), t)
    | .error e => (.error e, t)

/-- Gives what stands at one path the name of another path.  A file takes the place of a file or a
link, a directory that of an empty directory. -/
def rename (t : FileTree) (source target : Path) : Except OsError FileTree := do
  let old ← t.place source
  let new ← t.place target
  match old.last, new.last with
  | .name oldName, .name newName =>
    let oldLoc := old.dir ++ [oldName]
    let newLoc := new.dir ++ [newName]
    match t.get? oldLoc with
    | none => .error .notFound
    | some .dir =>
      if maxName < newName.length then .error .nameTooLong
      else if isInside oldLoc newLoc then .error .invalid
      else if isInside newLoc oldLoc then .error .notEmpty
      else if oldLoc = newLoc then .ok t
      else
        match t.get? newLoc with
        | none => .ok (t.move oldLoc newLoc)
        | some .dir =>
          if (t.children newLoc).isEmpty then .ok (t.move oldLoc newLoc) else .error .notEmpty
        | some _ => .error .notDirectory
    | some e =>
      if maxName < newName.length then .error .nameTooLong
      else if new.slash then .error .notDirectory
      else if isInside newLoc oldLoc then .error .notEmpty
      else
        match t.get? newLoc with
        | some .dir => .error .isDirectory
        | _ => .ok ((t.clear oldLoc).put newLoc e)
  | _, _ => .error .busy

/-- A made-up name: a beginning and six digits, or more for large numbers. -/
def madeUp (start : Bytes) (n : Nat) : Bytes :=
  let digits := Hex.digits n
  start ++ Utf8.encode (List.replicate (6 - digits.length) '0' ++ digits)

def freshName (t : FileTree) (dir : Loc) (start : Bytes) : Bytes × FileTree :=
  let lacks (n : Nat) : Bool := (t.get? (dir ++ [madeUp start n])).isNone
  let n := t.nextName + ((List.range (t.entries.size + 1)).find? (lacks <| t.nextName + ·)).getD 0
  (madeUp start n, { t with nextName := n + 1 })

end FileTree
end EnvTemplate
