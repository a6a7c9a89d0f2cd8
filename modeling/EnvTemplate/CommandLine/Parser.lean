import EnvTemplate.Assignment
import EnvTemplate.CommandLine.Invocation

/-!
Reading a command line.

The options that both commands share may stand before and after the name of the command; what is
given after it counts.  Options that are given once may not be repeated on one side of the name.
Short options may be run together, and the value of an option may be joined to it or follow as a word
of its own, which then does not begin with a dash.  A word of two dashes ends the options.
-/
namespace EnvTemplate
namespace CommandLine

inductive Switch
  | isolated
  | keepUnset
  | verbose
  | help
  | version

inductive Setting
  | set
  | vars
  | output

inductive Opt
  | switch (s : Switch)
  | setting (s : Setting)

def dash : UInt8 := 0x2D

def equals : UInt8 := 0x3D

/-- Where an option stands: before the command's name, or after it. -/
abbrev Side := Option CommandName

def isKnown (side : Side) : Opt → Bool
  | .switch .version => side.isNone
  | .setting .output => side == some .expand
  | _ => true

def longOptions : List (Text × Opt) := [
  ("set".toList, .setting .set),
  ("vars".toList, .setting .vars),
  ("output".toList, .setting .output),
  ("isolated".toList, .switch .isolated),
  ("keep-unset".toList, .switch .keepUnset),
  ("verbose".toList, .switch .verbose),
  ("help".toList, .switch .help),
  ("version".toList, .switch .version)]

def shortOptions : List (UInt8 × Opt) := [
  (0x73, .setting .set),
  (0x6F, .setting .output),
  (0x76, .switch .verbose),
  (0x68, .switch .help),
  (0x56, .switch .version)]

def long? (side : Side) (name : Bytes) : Option Opt :=
  (longOptions.find? fun (n, o) => Utf8.encode n == name && isKnown side o).map (·.2)

def short? (side : Side) (letter : UInt8) : Option Opt :=
  (shortOptions.find? fun (l, o) => l == letter && isKnown side o).map (·.2)

/-- The options on one side of the command's name. -/
structure Options where
  sets : List (Text × Text)
  vars : Option Path
  output : Option Path
  isolated : Bool
  keepUnset : Bool
  verbose : Bool

namespace Options

def none : Options := ⟨[], .none, .none, false, false, false⟩

def turnOn (side : Side) (o : Options) : Switch → Except Stop Options
  | .isolated => if o.isolated then .error .usage else .ok { o with isolated := true }
  | .keepUnset => if o.keepUnset then .error .usage else .ok { o with keepUnset := true }
  | .verbose => if o.verbose then .error .usage else .ok { o with verbose := true }
  | .help => .error (.help (side.elim .program .command))
  | .version => .error .version

def give (o : Options) (value : Bytes) : Setting → Except Stop Options
  | .set =>
    match (Utf8.decode? value).map Assignment.parse with
    | some (.ok pair) => .ok { o with sets := o.sets ++ [pair] }
    | _ => .error .usage
  | .vars =>
    if value.isEmpty || o.vars.isSome then .error .usage else .ok { o with vars := some value }
  | .output =>
    if value.isEmpty || o.output.isSome then .error .usage else .ok { o with output := some value }

/-- The options before and after the command's name together. -/
def merge (before after : Options) : Options where
  sets := if after.sets.isEmpty then before.sets else after.sets
  vars := after.vars.or before.vars
  output := after.output
  isolated := before.isolated || after.isolated
  keepUnset := before.keepUnset || after.keepUnset
  verbose := before.verbose || after.verbose

end Options

inductive Word
  | escape
  | long (name : Bytes) (value : Option Bytes)
  | short (letters : Bytes)
  | plain (word : Bytes)

def splitEquals : Bytes → Bytes × Option Bytes
  | [] => ([], none)
  | b :: t =>
    if b = equals then ([], some t)
    else
      let (name, value) := splitEquals t
      (b :: name, value)

/-- Looks at the dashes of a word.  A single dash is a plain word. -/
def Word.of : Bytes → Word
  | [a, b] => if a = dash ∧ b = dash then .escape else if a = dash then .short [b] else .plain [a, b]
  | a :: b :: t =>
    if a = dash ∧ b = dash then
      let (name, value) := splitEquals t
      .long name value
    else if a = dash then .short (b :: t)
    else .plain (a :: b :: t)
  | word => .plain word

def isValue (word : Bytes) : Bool :=
  match Word.of word with
  | .plain _ => true
  | _ => false

/-- Options after a word, and the setting that waits for its value in the next word. -/
abbrev Taken := Except Stop (Options × Option Setting)

/-- Takes short options that are run together.  The rest of a word behind the letter of a setting is
its value, and an equals sign before it is left out. -/
def takeLetters (side : Side) : Options → Bytes → Taken
  | o, [] => .ok (o, none)
  | o, letter :: t =>
    match short? side letter with
    | none => .error .usage
    | some (.switch s) => do takeLetters side (← o.turnOn side s) t
    | some (.setting s) =>
      match t with
      | [] => .ok (o, some s)
      | b :: value => do return (← o.give (if b = equals then value else b :: value) s, none)

def takeLong (side : Side) (o : Options) (name : Bytes) (value : Option Bytes) : Taken :=
  match long? side name, value with
  | some (.switch s), none => do return (← o.turnOn side s, none)
  | some (.setting s), none => .ok (o, some s)
  | some (.setting s), some value => do return (← o.give value s, none)
  | _, _ => .error .usage

def takeOptions (side : Side) (o : Options) : Word → Taken
  | .long name value => takeLong side o name value
  | .short letters => takeLetters side o letters
  | _ => .error .usage

/-- Takes the operands of a command: files, which have names, and no more than two for a rendering. -/
def takeOperand (name : CommandName) (operands : List Path) (word : Bytes) :
    Except Stop (List Path) :=
  if word.isEmpty then .error .usage
  else if name = .render ∧ 2 ≤ operands.length then .error .usage
  else .ok (operands ++ [word])

def afterName (name : CommandName) : Options → List Path → List Bytes →
    Except Stop (Options × List Path)
  | o, operands, [] => .ok (o, operands)
  | o, operands, word :: words =>
    match Word.of word with
    | .escape => do return (o, ← words.foldlM (takeOperand name) operands)
    | .plain word => do afterName name o (← takeOperand name operands word) words
    | options => do
      let (o, waiting) ← takeOptions (some name) o options
      match waiting, words with
      | none, words => afterName name o operands words
      | some s, value :: words =>
        if isValue value then do afterName name (← o.give value s) operands words
        else .error .usage
      | some _, [] => .error .usage

def commandName? (word : Bytes) : Option CommandName :=
  if word = Utf8.encode "expand".toList then some .expand
  else if word = Utf8.encode "render".toList then some .render
  else none

def helpWord : Bytes := Utf8.encode "help".toList

def helpTopic : List Bytes → Stop
  | [] => .help .program
  | [word] =>
    match commandName? word with
    | some name => .help (.command name)
    | none => if word = helpWord then .help .help else .usage
  | _ => .usage

def command (word : Bytes) (words : List Bytes) :
    Except Stop (CommandName × Options × List Path) :=
  match commandName? word with
  | some name => do return (name, ← afterName name .none [] words)
  | none => .error (if word = helpWord then helpTopic words else .usage)

/-- Reads the words before the name of a command, and then that command.  A value that stands right
before the name is looked at after what follows the name. -/
def beforeName : Options → List Bytes → Except Stop (Options × CommandName × Options × List Path)
  | _, [] => .error .usage
  | o, word :: words =>
    match Word.of word with
    | .escape => .error .usage
    | .plain word => do return (o, ← command word words)
    | options => do
      let (o, waiting) ← takeOptions none o options
      match waiting, words with
      | none, words => beforeName o words
      | some s, value :: next :: words =>
        if !isValue value then .error .usage
        else if isValue next then do
          let r ← command next words
          return (← o.give value s, r)
        else do beforeName (← o.give value s) (next :: words)
      | some _, _ => .error .usage

def parse (words : List Bytes) : Except Stop Invocation := do
  let (before, name, after, operands) ← beforeName .none words
  let o := before.merge after
  let command ←
    match name, operands with
    | .expand, inputs => .ok (.expand inputs o.output)
    | .render, [templates, out] => .ok (.render templates out)
    | .render, _ => .error .usage
  return ⟨command, o.vars, o.sets, o.isolated, o.keepUnset, o.verbose⟩

end CommandLine
end EnvTemplate
