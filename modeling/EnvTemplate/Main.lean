import EnvTemplate.Program

/-!
The program on the command line.  What a run starts from is read from the system: the words of the
command line, the environment, standard input if it is asked for, and the files that the command
names.  `Program.run` says what comes of it, and that is written back.
-/
namespace EnvTemplate
namespace Main

def systemName (p : Path) : String := String.ofList p.display

def splitNul : Bytes → List Bytes
  | [] => [[]]
  | b :: t =>
    if b = 0 then [] :: splitNul t
    else
      match splitNul t with
      | [] => [[b]]
      | piece :: more => (b :: piece) :: more

def environmentOf (lines : Bytes) : Environment :=
  (splitNul lines).foldl (fun env line =>
    match CommandLine.splitEquals line with
    | (name, some value) => env.insert (Utf8.lossy name) value
    | _ => env) ∅

def readEnvironment : IO Environment := do
  try return environmentOf (← IO.FS.readBinFile "/proc/self/environ").toList
  catch _ => return ∅

def readsStdin : Command → Bool
  | .expand inputs _ => inputs.isEmpty || inputs.contains Inputs.standard
  | .render _ _ => false

/-- The files that a run may look at; of directories, all that is in them. -/
def filesOf (inv : Invocation) (env : Environment) : List Path :=
  let config := match Settings.path? env with
    | .ok p => [p]
    | .error _ => []
  let operands := match inv.command with
    | .expand inputs output => inputs ++ output.toList
    | .render templates out => [templates, out]
  config ++ inv.vars.toList ++ operands

partial def take (deep : Bool) (t : FileTree) (loc : Loc) : IO FileTree := do
  let path := (← IO.currentDir) / systemName (Path.fromRoot loc)
  try
    match (← path.metadata).type with
    | .dir =>
      let mut t := t.put loc .dir
      if deep then
        for e in ← path.readDir do
          let inner := loc ++ [Path.ofText e.fileName.toList]
          if (← e.path.symlinkMetadata).type == .symlink then
            t := t.put inner (.link (Path.fromRoot inner))
          else t ← take deep t inner
      return t
    | _ => return t.put loc (.file (← IO.FS.readBinFile path).toList)
  catch _ => return t

/-- Takes the files that a path leads to, and the directories on the way, into a tree. -/
def takeAlong (t : FileTree) (p : Path) : IO FileTree := do
  let mut t := t
  let mut loc := FileTree.origin t.cwd p
  for name in p.names do
    if name = Path.dotDot then loc := loc.dropLast
    else if name ≠ Path.dot then
      loc := loc ++ [name]
      if (t.get? loc).isNone then t ← take false t loc
  take true t loc

def readTree (files : List Path) : IO FileTree := do
  let cwd := (Path.ofText (← IO.currentDir).toString.toList).names
  let mut t : FileTree := ⟨∅, cwd, ← IO.rand 0x100000 0xffffff⟩
  for i in [0:cwd.length] do
    t := t.put (cwd.take (i + 1)) .dir
  for p in files do
    t ← takeAlong t p
  return t

def writeFile (loc : Loc) (content : Bytes) : IO Unit := do
  let name := systemName (Path.fromRoot loc)
  IO.FS.writeBinFile (name ++ ".tmp") content.toByteArray
  IO.FS.rename (name ++ ".tmp") name

/-- Whether a directory stands where one stood, or something else where something else stood. -/
def isSameKind (before : Entry) (after : Option Entry) : Bool :=
  after.any fun e => decide (before = .dir) == decide (e = .dir)

/-- Makes the files of the system what a run has left. -/
def writeTree (before after : FileTree) : IO Unit := do
  for (loc, e) in (before.under []).reverse do
    if !isSameKind e (after.get? loc) then
      match e with
      | .dir => IO.FS.removeDir (systemName (Path.fromRoot loc))
      | _ => IO.FS.removeFile (systemName (Path.fromRoot loc))
  for (loc, e) in after.under [] do
    if before.get? loc ≠ some e then
      match e with
      | .dir => IO.FS.createDirAll (systemName (Path.fromRoot loc))
      | .file content => writeFile loc content
      | .link _ => pure ()

end Main
end EnvTemplate

open EnvTemplate in
def main (args : List String) : IO UInt32 := do
  let words := args.map fun a => Path.ofText a.toList
  let env ← Main.readEnvironment
  let (files, asksStdin) := match CommandLine.parse words with
    | .ok inv => (Main.filesOf inv env, Main.readsStdin inv.command)
    | .error _ => ([], false)
  let stdin ← if asksStdin then (← IO.getStdin).readBinToEnd else pure ByteArray.empty
  let tree ← Main.readTree files
  let exit := Program.run ⟨words, env, stdin.toList, tree⟩
  Main.writeTree tree exit.tree
  (← IO.getStderr).putStr (String.ofList exit.stderr)
  (← IO.getStdout).write exit.stdout.toByteArray
  return exit.code.toUInt32
