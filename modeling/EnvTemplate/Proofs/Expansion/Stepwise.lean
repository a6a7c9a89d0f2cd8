import EnvTemplate.Expansion
import EnvTemplate.Proofs.Segment.Lossless

/-! Expanding a template one segment at a time.  A template that begins with a segment is expanded
as that segment and then the rest, and the offset of an unclosed brace in the rest is counted from
the beginning of the template. -/
namespace EnvTemplate

open Segment Text

def ExpansionError.shift (size : Nat) : ExpansionError → ExpansionError
  | unclosed e => unclosed ⟨size + e.offset⟩
  | missing name complaint => missing name complaint

variable {σ : Type}

namespace Outcome

def shift (size : Nat) (a : Outcome ExpansionError σ) : Outcome ExpansionError σ :=
  { a with result := a.result.mapError (·.shift size) }

@[simp] theorem shift_error (size : Nat) (e : ExpansionError) (s : σ) (j : Journal) :
    shift size ⟨.error e, s, j⟩ = ⟨.error (e.shift size), s, j⟩ := rfl

@[simp] theorem shift_ok (size : Nat) (t : Text) (s : σ) (j : Journal) :
    shift size ⟨.ok t, s, j⟩ = ⟨.ok t, s, j⟩ := rfl

@[simp] theorem shift_done (size : Nat) (s : σ) : (done s).shift size = done s := rfl

@[simp] theorem shift_zero (a : Outcome ExpansionError σ) : a.shift 0 = a := by
  rcases a with ⟨e | t, s, j⟩
  · cases e <;> simp [ExpansionError.shift]
  · rfl

theorem shift_shift (m n : Nat) (a : Outcome ExpansionError σ) :
    (a.shift m).shift n = a.shift (n + m) := by
  rcases a with ⟨e | t, s, j⟩
  · cases e <;> simp [ExpansionError.shift, Nat.add_assoc]
  · rfl

theorem shift_andThen (size : Nat) (a : Outcome ExpansionError σ)
    (f : σ → Outcome ExpansionError σ) :
    (a.andThen f).shift size = (a.shift size).andThen fun s => (f s).shift size := by
  rcases a with ⟨e | t, s, j⟩
  · rfl
  · rcases hf : f s with ⟨e | u, s', j'⟩ <;>
      simp [andThen, hf, Except.map]

theorem andThen_of_error {a : Outcome ExpansionError σ} {e : ExpansionError}
    (h : a.result = .error e) (f : σ → Outcome ExpansionError σ) : a.andThen f = a := by
  rcases a with ⟨r, s, j⟩
  obtain rfl : r = .error e := h
  rfl

theorem andThen_congr {a : Outcome ExpansionError σ} {f g : σ → Outcome ExpansionError σ}
    (h : ∀ t, a.result = .ok t → f a.store = g a.store) : a.andThen f = a.andThen g := by
  rcases a with ⟨e | t, s, j⟩
  · rfl
  · have hs : f s = g s := h t rfl
    simp only [andThen, hs]

theorem andThen_eq_error_iff {a : Outcome ExpansionError σ} {f : σ → Outcome ExpansionError σ}
    {e : ExpansionError} :
    (a.andThen f).result = .error e ↔
      a.result = .error e ∨ ∃ t, a.result = .ok t ∧ (f a.store).result = .error e := by
  rcases a with ⟨e' | t, s, j⟩
  · simp [andThen]
  · cases h : (f s).result <;> simp [andThen, h, Except.map]

theorem andThen_eq_ok_iff {a : Outcome ExpansionError σ} {f : σ → Outcome ExpansionError σ}
    {text : Text} :
    (a.andThen f).result = .ok text ↔
      ∃ u v, a.result = .ok u ∧ (f a.store).result = .ok v ∧ u ++ v = text := by
  rcases a with ⟨e | t, s, j⟩
  · simp [andThen]
  · cases h : (f s).result <;> simp [andThen, h, Except.map]

theorem shift_eq_missing_iff {size : Nat} {a : Outcome ExpansionError σ} {name complaint : Text} :
    (a.shift size).result = .error (.missing name complaint) ↔
      a.result = .error (.missing name complaint) := by
  rcases a with ⟨e | t, s, j⟩
  · cases e <;> simp [ExpansionError.shift]
  · simp

end Outcome

variable [VariableStore σ]

namespace Segment

/-- What expanding a segment comes to, by its form and by whether its variable is set. -/
inductive Expands (rule : UnsetRule) (s : σ) : Segment → Outcome ExpansionError σ → Prop
  | literal (text : Text) : Expands rule s (literal text) ⟨.ok text, s, []⟩
  | plainSet {name raw v : Text} (h : VariableStore.value? s name = some v) :
      Expands rule s (plain name raw) ⟨.ok v, s, []⟩
  | plainEmpty {name raw : Text} (h : VariableStore.value? s name = none) (hr : rule = .empty) :
      Expands rule s (plain name raw) ⟨.ok [], s, []⟩
  | plainKept {name raw : Text} (h : VariableStore.value? s name = none) (hr : rule = .keep) :
      Expands rule s (plain name raw) ⟨.ok raw, s, [.keptLiteral name]⟩
  | bracedSet {name operand v : Text} {op : Operator} (h : VariableStore.value? s name = some v)
      (ho : op ≠ .alternative) : Expands rule s (braced name op operand) ⟨.ok v, s, []⟩
  | alternative {name operand v : Text} (h : VariableStore.value? s name = some v) :
      Expands rule s (braced name .alternative operand) ⟨.ok operand, s, []⟩
  | noAlternative {name operand : Text} (h : VariableStore.value? s name = none) :
      Expands rule s (braced name .alternative operand) ⟨.ok [], s, []⟩
  | fallback {name operand : Text} (h : VariableStore.value? s name = none) :
      Expands rule s (braced name .fallback operand) ⟨.ok operand, s, []⟩
  | missing {name operand : Text} (h : VariableStore.value? s name = none) :
      Expands rule s (braced name .required operand) ⟨.error (.missing name operand), s, []⟩
  | assigned {name operand : Text} (h : VariableStore.value? s name = none) :
      Expands rule s (braced name .assign operand)
        ⟨.ok operand, VariableStore.set s name operand,
          .assigning name operand :: VariableStore.notes s name operand⟩

theorem expands (rule : UnsetRule) (s : σ) (g : Segment) : Expands rule s g (expand rule s g) := by
  cases g with
  | literal text => exact .literal text
  | plain name raw =>
    cases h : VariableStore.value? s name with
    | some v => simpa [expand, h] using Expands.plainSet h
    | none =>
      cases rule with
      | empty => simpa [expand, h] using Expands.plainEmpty h rfl
      | keep => simpa [expand, h] using Expands.plainKept h rfl
  | braced name op operand =>
    cases h : VariableStore.value? s name with
    | some v =>
      by_cases ho : op = .alternative
      · subst ho
        simpa [expand, h] using Expands.alternative h
      · have he : expand rule s (braced name op operand) = ⟨.ok v, s, []⟩ := by
          cases op <;> simp [expand, h] at ho ⊢
        rw [he]
        exact .bracedSet h ho
    | none =>
      cases op with
      | alternative => simpa [expand, h] using Expands.noAlternative h
      | fallback => simpa [expand, h] using Expands.fallback h
      | required => simpa [expand, h] using Expands.missing h
      | assign => simpa [expand, h] using Expands.assigned h

def expandAll (rule : UnsetRule) : List Segment → σ → Outcome ExpansionError σ
  | [], s => .done s
  | g :: gs, s => (expand rule s g).andThen (expandAll rule gs)

end Segment

/-- Expands the segments of a scan and then reports its unclosed brace, if there is one. -/
def Scan.expand (rule : UnsetRule) (sc : Scan) (s : σ) : Outcome ExpansionError σ :=
  (expandAll rule sc.segments s).andThen fun s =>
    match sc.unclosed with
    | none => .done s
    | some e => ⟨.error (.unclosed e), s, []⟩

theorem Segment.shift_expand (size : Nat) (rule : UnsetRule) (s : σ) (g : Segment) :
    (Segment.expand rule s g).shift size = Segment.expand rule s g := by
  generalize Segment.expand rule s g = a, Segment.expands rule s g = h
  cases h <;> rfl

theorem Segment.shift_expandAll (size : Nat) (rule : UnsetRule) (gs : List Segment) (s : σ) :
    (Segment.expandAll rule gs s).shift size = Segment.expandAll rule gs s := by
  induction gs generalizing s with
  | nil => rfl
  | cons g gs ih =>
    rw [Segment.expandAll, Outcome.shift_andThen, shift_expand]
    exact congrArg _ (funext ih)

theorem Scan.expand_cons (rule : UnsetRule) (g : Segment) (sc : Scan) (s : σ) :
    (sc.cons g).expand rule s = (Segment.expand rule s g).andThen (sc.expand rule) :=
  Outcome.andThen_assoc _ _ _

theorem Scan.expand_shift (size : Nat) (rule : UnsetRule) (sc : Scan) (s : σ) :
    (sc.shift size).expand rule s = (sc.expand rule s).shift size := by
  rw [Scan.expand, Scan.expand, Outcome.shift_andThen, shift_expandAll]
  refine congrArg _ (funext fun s => ?_)
  cases h : sc.unclosed with
  | none => simp [Scan.shift, h]
  | some e =>
    simp only [Scan.shift, h]
    rfl

/-- Segments may be expanded as they are found or when all are found. -/
theorem Cursor.expand_eq (rule : UnsetRule) (n : Nat) (c : Cursor) (s : σ) :
    c.expand rule n s = (collect n c).1.expand rule s := by
  induction n generalizing c s with
  | zero => rfl
  | succ n ih =>
    rw [Cursor.expand, collect]
    rcases c.next with ⟨_ | e | g, c'⟩
    · rfl
    · rfl
    · have hc : c'.expand rule n = (collect n c').1.expand rule := funext (ih c')
      rw [Scan.expand_cons, ← hc]

theorem expand_eq_scan (rule : UnsetRule) (t : Text) (s : σ) :
    expand rule t s = (scan t).expand rule s :=
  Cursor.expand_eq rule t.length (Cursor.start t) s

@[simp] theorem expand_nil (rule : UnsetRule) (s : σ) : expand rule [] s = .done s := rfl

theorem expand_unclosed (rule : UnsetRule) {u : Text} (hu : StaysWithin 0 u) (s : σ) :
    expand rule ('$' :: '{' :: u) s = ⟨.error (.unclosed ⟨0⟩), s, []⟩ := by
  rw [expand_eq_scan, scan_unclosed hu]
  rfl

theorem expand_of_begins (rule : UnsetRule) {t rest : Text} {g : Segment} (h : Begins t g rest)
    (s : σ) :
    expand rule t s = (Segment.expand rule s g).andThen fun s' =>
      (expand rule rest s').shift g.source.byteSize := by
  rw [expand_eq_scan, scan_of_begins h, Scan.expand_cons]
  refine congrArg _ (funext fun s' => ?_)
  rw [expand_eq_scan, Scan.expand_shift]

end EnvTemplate
