import EnvTemplate.Segment.Scan
import EnvTemplate.VariableStore

/-!
Expanding the placeholders of a template against a store of variables.

| placeholder       | set and not empty | unset or empty                 |
|-------------------|-------------------|--------------------------------|
| `$name` `${name}` | value             | nothing, or the source is kept |
| `${name:-word}`   | value             | `word`                         |
| `${name:+word}`   | `word`            | nothing                        |
| `${name:?word}`   | value             | failure                        |
| `${name:=word}`   | value             | `word`, which is also stored   |

A word is text: placeholders in it are not expanded.  Assignments take effect at once and stay when a
later placeholder fails.
-/
namespace EnvTemplate

/-- What becomes of a plain placeholder of an unset variable. -/
inductive UnsetRule
  | empty
  | keep
  deriving DecidableEq

inductive ExpansionError
  | unclosed (e : UnclosedBrace)
  | missing (name complaint : Text)
  deriving DecidableEq

namespace ExpansionError

def message : ExpansionError → Text
  | unclosed e =>
    "unclosed brace in variable expression starting at byte ".toList ++ Nat.toDigits 10 e.offset
  | missing name complaint =>
    "variable '".toList ++ name ++ "' is unset or empty: ".toList ++ complaint

end ExpansionError

/-- What an expansion comes to: its text or an error, the store it leaves, and what it noted. -/
structure Outcome (ε σ : Type) where
  result : Except ε Text
  store : σ
  journal : Journal

namespace Outcome

variable {ε σ : Type}

def done (store : σ) : Outcome ε σ := ⟨.ok [], store, []⟩

/-- Goes on after an outcome, unless it is an error, and joins the texts and the notes. -/
def andThen (a : Outcome ε σ) (next : σ → Outcome ε σ) : Outcome ε σ :=
  match a.result with
  | .error e => ⟨.error e, a.store, a.journal⟩
  | .ok text =>
    let b := next a.store
    ⟨b.result.map (text ++ ·), b.store, a.journal ++ b.journal⟩

@[simp] theorem done_andThen (s : σ) (next : σ → Outcome ε σ) :
    (done s).andThen next = next s := by
  rcases h : next s with ⟨_ | t, s', j⟩ <;> simp [done, andThen, h, Except.map]

@[simp] theorem andThen_done (a : Outcome ε σ) : a.andThen done = a := by
  rcases a with ⟨_ | t, s, j⟩ <;> simp [done, andThen, Except.map]

theorem andThen_assoc (a : Outcome ε σ) (f g : σ → Outcome ε σ) :
    (a.andThen f).andThen g = a.andThen fun s => (f s).andThen g := by
  rcases a with ⟨_ | t, s, j⟩
  · rfl
  · rcases hf : f s with ⟨_ | u, s', j'⟩
    · simp [andThen, hf, Except.map]
    · rcases hg : g s' with ⟨_ | v, s'', j''⟩ <;> simp [andThen, hf, hg, Except.map]

end Outcome

variable {σ : Type} [VariableStore σ]

namespace Segment

def expand (rule : UnsetRule) (store : σ) : Segment → Outcome ExpansionError σ
  | literal text => ⟨.ok text, store, []⟩
  | plain name raw =>
    match VariableStore.value? store name with
    | some v => ⟨.ok v, store, []⟩
    | none =>
      match rule with
      | .empty => ⟨.ok [], store, []⟩
      | .keep => ⟨.ok raw, store, [.keptLiteral name]⟩
  | braced name op operand =>
    match op, VariableStore.value? store name with
    | .alternative, some _ => ⟨.ok operand, store, []⟩
    | .alternative, none => ⟨.ok [], store, []⟩
    | _, some v => ⟨.ok v, store, []⟩
    | .fallback, none => ⟨.ok operand, store, []⟩
    | .required, none => ⟨.error (.missing name operand), store, []⟩
    | .assign, none =>
      ⟨.ok operand, VariableStore.set store name operand,
        .assigning name operand :: VariableStore.notes store name operand⟩

end Segment

namespace Cursor

/-- Expands each segment as a cursor yields it, up to the end or up to an error.  The cursor is
called a given number of times at most. -/
def expand (rule : UnsetRule) : Nat → Cursor → σ → Outcome ExpansionError σ
  | 0, _, store => .done store
  | n + 1, c, store =>
    match c.next with
    | (none, _) => .done store
    | (some (.error e), _) => ⟨.error (.unclosed e), store, []⟩
    | (some (.ok g), c) => (Segment.expand rule store g).andThen (expand rule n c)

end Cursor

/-- Expands the placeholders of a template, which has at most as many segments as characters. -/
def expand (rule : UnsetRule) (template : Text) (store : σ) : Outcome ExpansionError σ :=
  (Cursor.start template).expand rule template.length store

end EnvTemplate
