import EnvTemplate.Log.Filter
import EnvTemplate.Text.Quoted

/-!
The lines of a log.
-/
namespace EnvTemplate
namespace Log

def fieldText : Text × FieldValue → Text
  | (name, .string t) => ' ' :: (name ++ '=' :: Quoted.ofText t)
  | (name, .shown t) => ' ' :: (name ++ '=' :: t)

/-- The text of a message, with the characters that steer a terminal written out. -/
def messageText (t : Text) : Text :=
  t.flatMap fun c =>
    if ['\x07', '\x08', '\x0c', '\x1b', '\x7f'].contains c then
      '\\' :: 'x' :: Hex.pair c.toNat
    else if '\x80' ≤ c && c ≤ '\u009f' then '\\' :: 'u' :: '{' :: (Hex.digits c.toNat ++ ['}'])
    else [c]

/-- The line of a record: its level in five columns, its target, its message and its fields. -/
def line (r : Record) : Text :=
  let level := r.level.name
  List.replicate (5 - level.length) ' ' ++ level ++ ' ' :: r.target ++ ": ".toList ++
    messageText r.message ++ r.fields.flatMap fieldText ++ ['\n']

def lines (f : Filter) (journal : Journal) : Text :=
  ((journal.map Record.ofEvent).filter f.admits).flatMap line

end Log
end EnvTemplate
