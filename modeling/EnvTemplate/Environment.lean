import Std.Data.ExtTreeMap
import EnvTemplate.Text.Utf8

/-!
The environment of a process: names with values that may be any bytes.  It is kept as lines
`name=value`, and a lookup compares the beginnings of these lines, so a name with an equals sign in it
finds the rest of a value that begins accordingly.
-/
namespace EnvTemplate

abbrev Environment := Std.ExtTreeMap Text Bytes

namespace Environment

/-- What is left of bytes behind a given beginning. -/
def behind? : Bytes → Bytes → Option Bytes
  | [], b => some b
  | x :: start, y :: b => if x = y then behind? start b else none
  | _ :: _, [] => none

def bytes? (env : Environment) (name : Text) : Option Bytes :=
  match name.splitAt? '=' with
  | none => env[name]?
  | some (first, more) => (env[first]?).bind (behind? (Utf8.encode (more ++ ['='])))

/-- The value of a variable.  One that is not UTF-8 reads as absent. -/
def read? (env : Environment) (name : Text) : Option Text :=
  (env.bytes? name).bind Utf8.decode?

/-- Whether the environment can hold a value: it has no NUL, which would end it. -/
def accepts (value : Text) : Bool := !value.contains '\x00'

def write (env : Environment) (name value : Text) : Environment :=
  if accepts value then env.insert name (Utf8.encode value) else env

theorem bytes?_eq {name : Text} (h : '=' ∉ name) (env : Environment) :
    env.bytes? name = env[name]? := by
  have hs : name.splitAt? '=' = none := by
    cases hx : name.splitAt? '=' with
    | none => rfl
    | some p =>
      obtain ⟨rfl, _⟩ := Text.splitAt?_eq_some (a := p.1) (b := p.2) hx
      simp at h
  simp [bytes?, hs]

/-- A value that the environment can hold is read back, and no other variable changes. -/
theorem read?_write {env : Environment} {name value m : Text} (hv : accepts value = true)
    (hm : '=' ∉ m) :
    (env.write name value).read? m = if m = name then some value else env.read? m := by
  simp only [read?, write, hv, if_true, bytes?_eq hm, Std.ExtTreeMap.getElem?_insert]
  by_cases h : m = name
  · simp [h]
  · simp [h, Ne.symm h]

theorem write_refused {value : Text} (hv : accepts value = false) (env : Environment)
    (name : Text) : env.write name value = env := by
  simp [write, hv]

end Environment
end EnvTemplate
