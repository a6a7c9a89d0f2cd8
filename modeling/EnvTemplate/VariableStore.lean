import EnvTemplate.Environment
import EnvTemplate.Journal

/-!
The stores that placeholders are resolved against: a plain map, the environment of the process, and
a map laid over that environment.
-/
namespace EnvTemplate

/-- A store of variables.  An absent variable and an empty one count as unset alike. -/
class VariableStore (σ : Type) where
  get? : σ → Text → Option Text
  /-- Gives a variable a value, unless the store refuses that value. -/
  set : σ → Text → Text → σ
  accepts : σ → Text → Bool

namespace VariableStore

variable {σ : Type} [VariableStore σ]

def value? (s : σ) (name : Text) : Option Text :=
  match get? s name with
  | some [] => none
  | v => v

/-- What is noted when a variable is given a value. -/
def notes (s : σ) (name value : Text) : Journal :=
  if accepts s value then [] else [.refused name]

end VariableStore

abbrev Vars := Std.ExtTreeMap Text Text

namespace Vars

instance : DecidableEq Vars := inferInstanceAs (DecidableEq (Std.ExtTreeMap Text Text))

def addAll (vars : Vars) (entries : List (Text × Text)) : Vars :=
  entries.foldl (fun vars e => vars.insert e.1 e.2) vars

end Vars

instance : VariableStore Vars where
  get? vars name := vars[name]?
  set vars name value := vars.insert name value
  accepts _ _ := true

theorem Vars.get?_set (vars : Vars) (name value m : Text) :
    VariableStore.get? (VariableStore.set vars name value) m =
      if m = name then some value else VariableStore.get? vars m := by
  by_cases h : m = name
  · simp [VariableStore.get?, VariableStore.set, h]
  · simp [VariableStore.get?, VariableStore.set, Std.ExtTreeMap.getElem?_insert, h, Ne.symm h]

instance : VariableStore Environment where
  get? := Environment.read?
  set := Environment.write
  accepts _ value := Environment.accepts value

/-- A map of variables laid over the environment of the process.  Only the map is ever written. -/
structure Layered where
  own : Vars
  env : Environment
  /-- Whether names that the map lacks are looked up in the environment. -/
  inherits : Bool
  deriving DecidableEq

namespace Layered

/-- The value of a variable.  An entry of the map hides the environment even if it is empty. -/
def get? (s : Layered) (name : Text) : Option Text :=
  match s.own[name]? with
  | some v => some v
  | none => if s.inherits then s.env.read? name else none

def addAll (s : Layered) (entries : List (Text × Text)) : Layered :=
  { s with own := s.own.addAll entries }

end Layered

instance : VariableStore Layered where
  get? := Layered.get?
  set s name value := { s with own := s.own.insert name value }
  accepts _ _ := true

theorem Layered.get?_set (s : Layered) (name value m : Text) :
    VariableStore.get? (VariableStore.set s name value) m =
      if m = name then some value else VariableStore.get? s m := by
  by_cases h : m = name
  · simp [VariableStore.get?, VariableStore.set, Layered.get?, h]
  · simp [VariableStore.get?, VariableStore.set, Layered.get?, Std.ExtTreeMap.getElem?_insert, h, Ne.symm h]

@[simp] theorem Layered.env_set (s : Layered) (name value : Text) :
    (VariableStore.set s name value).env = s.env := rfl

end EnvTemplate
