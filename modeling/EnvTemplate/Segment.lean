import EnvTemplate.Name

/-!
The segments of a template: literal text, plain placeholders `$name` and `${name}`, and
placeholders with an operator.  `Segment.source` writes a segment back as template text.
-/
namespace EnvTemplate

/-- What a braced placeholder does besides looking up its variable. -/
inductive Operator
  /-- The operand stands in for an unset variable. -/
  | fallback
  /-- The operand replaces a set variable. -/
  | alternative
  /-- The operand is the complaint about an unset variable. -/
  | required
  /-- The operand stands in for an unset variable and is stored in it. -/
  | assign
  deriving DecidableEq

namespace Operator

def sign : Operator → Char
  | fallback => '-'
  | alternative => '+'
  | required => '?'
  | assign => '='

def ofSign? (c : Char) : Option Operator :=
  if c = '-' then some fallback
  else if c = '+' then some alternative
  else if c = '?' then some required
  else if c = '=' then some assign
  else none

@[simp] theorem ofSign?_sign (op : Operator) : ofSign? op.sign = some op := by
  cases op <;> rfl

theorem ofSign?_eq_some {c : Char} {op : Operator} (h : ofSign? c = some op) : c = op.sign := by
  unfold ofSign? at h
  repeat' split at h
  all_goals first | (simp only [Option.some.injEq] at h; subst h; assumption) | cases h

def token (op : Operator) : Text := [':', op.sign]

def all : List Operator := [fallback, alternative, required, assign]

/-- The place of the leftmost operator token, and its operator. -/
def find? (content : Text) : Option (Nat × Operator) :=
  (all.filterMap fun op => (Text.indexOf? op.token content).map (·, op)).minOn? Prod.fst

theorem indexOf?_of_find? {content : Text} {i : Nat} {op : Operator}
    (h : find? content = some (i, op)) : Text.indexOf? op.token content = some i := by
  have hm := List.minOn?_mem h
  simp only [List.mem_filterMap, Option.map_eq_some_iff, Prod.mk.injEq] at hm
  obtain ⟨_, -, _, hi, rfl, rfl⟩ := hm
  exact hi

def split? (content : Text) : Option (Text × Operator × Text) :=
  (find? content).map fun (i, op) => (content.take i, op, content.drop (i + 2))

theorem eq_of_split? {content name operand : Text} {op : Operator}
    (h : split? content = some (name, op, operand)) : content = name ++ op.token ++ operand := by
  simp only [split?, Option.map_eq_some_iff, Prod.exists, Prod.mk.injEq] at h
  obtain ⟨i, o, hf, rfl, rfl, rfl⟩ := h
  exact Text.indexOf?_eq_some (indexOf?_of_find? hf)

end Operator

inductive Segment
  | literal (text : Text)
  /-- A placeholder without an operator, together with its spelling. -/
  | plain (name raw : Text)
  /-- A braced placeholder with an operator.  The operand is taken as it is. -/
  | braced (name : Text) (op : Operator) (operand : Text)
  deriving DecidableEq

namespace Segment

/-- A content between `${` and the closing brace. -/
def inBraces (content : Text) : Text := '$' :: '{' :: (content ++ ['}'])

def source : Segment → Text
  | literal text => text
  | plain _ raw => raw
  | braced name op operand => inBraces (name ++ op.token ++ operand)

/-- The segment of a braced content.  A content whose name part is no name is literal text. -/
def ofContent (content : Text) : Segment :=
  match Operator.split? content with
  | some (name, op, operand) =>
    if Name.isValid name then braced name op operand else literal (inBraces content)
  | none =>
    if Name.isValid content then plain content (inBraces content)
    else literal (inBraces content)

end Segment
end EnvTemplate
