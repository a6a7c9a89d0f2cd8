import EnvTemplate.Expansion
import EnvTemplate.FileTree.Error
import EnvTemplate.Path
import EnvTemplate.Text.Quoted

/-!
What can go wrong in a run: a cause, and what was being done when it struck.
-/
namespace EnvTemplate

inductive VariableError
  | missing
  | notText (value : Bytes)
  deriving DecidableEq

def VariableError.message : VariableError → Text
  | missing => "environment variable not found".toList
  | notText value => "environment variable was not valid unicode: ".toList ++ Quoted.ofBytes value

inductive Cause
  | expansion (e : ExpansionError)
  | os (e : OsError)
  | osAt (e : OsError) (p : Path)
  | environment (e : VariableError)
  | toml
  | noTemplates (dir : Path)
  | unknownRule (word : Text)
  | ruleKind (kind : Toml.Kind)
  deriving DecidableEq

def Cause.message : Cause → Text
  | expansion e => e.message
  | os e => e.message
  | osAt e p => e.message ++ " at path ".toList ++ Quoted.ofBytes p
  | environment e => e.message
  | toml => "TOML parse error".toList
  | noTemplates dir => "templates directory not found: ".toList ++ dir.display
  | unknownRule word =>
    "unknown `unset` policy '".toList ++ word ++ "' (expected \"empty\" or \"keep\")".toList
  | ruleKind kind => "`unset` must be a string, got ".toList ++ kind.name

/-- A cause and what was being done, the outermost task first. -/
structure Failure where
  contexts : List Text
  cause : Cause
  deriving DecidableEq

namespace Failure

def within (task : Text) (f : Failure) : Failure := { f with contexts := task :: f.contexts }

def ofOs (task : Text) (e : OsError) : Failure := ⟨[task], .os e⟩

def messages (f : Failure) : List Text := f.contexts ++ [f.cause.message]

def indent (width : Nat) (t : Text) : Text :=
  t.flatMap fun c => if c = '\n' then '\n' :: List.replicate width ' ' else [c]

/-- The messages below the outermost one.  Several of them are numbered from zero. -/
def causes : List Text → Text
  | [] => []
  | [m] => "\n\nCaused by:\n    ".toList ++ indent 4 m
  | ms =>
    "\n\nCaused by:".toList ++
      (ms.zipIdx.flatMap fun (m, i) =>
        let number := Nat.toDigits 10 i
        '\n' :: (List.replicate (5 - number.length) ' ' ++ number ++ ": ".toList ++ indent 7 m))

def report (f : Failure) : Text :=
  match f.messages with
  | [] => []
  | outermost :: ms => "Error: ".toList ++ outermost ++ causes ms ++ ['\n']

end Failure

section Results

variable {α ε ε' : Type}

@[simp] theorem mapError_ok (f : ε → ε') (a : α) : (Except.ok a).mapError f = .ok a := rfl

@[simp] theorem mapError_error (f : ε → ε') (e : ε) :
    (Except.error e : Except ε α).mapError f = .error (f e) := rfl

theorem toOption_eq_some_iff {r : Except ε α} {a : α} : r.toOption = some a ↔ r = .ok a := by
  cases r <;> simp [Except.toOption]

theorem exists_of_toOption {r : Except ε α} (h : r.toOption.isSome = true) : ∃ a, r = .ok a := by
  cases r with
  | error e => cases h
  | ok a => exact ⟨a, rfl⟩

theorem toOption_eq_none_iff {r : Except ε α} : r.toOption = none ↔ ∃ e, r = .error e := by
  cases r <;> simp [Except.toOption]

end Results

namespace Outcome

/-- An outcome whose error came about while something was being done. -/
def during {σ : Type} (task : Text) (r : Outcome ExpansionError σ) : Outcome Failure σ :=
  ⟨r.result.mapError fun e => ⟨[task], .expansion e⟩, r.store, r.journal⟩

end Outcome
end EnvTemplate
