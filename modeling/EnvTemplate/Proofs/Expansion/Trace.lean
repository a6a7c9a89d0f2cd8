import EnvTemplate.Proofs.Expansion.Stepwise
import EnvTemplate.Proofs.Segment.Grammar

/-! The way an expansion takes.  A segment changes the store in one case alone, by assigning its operand
to its variable, which was not set; `trace` lists the segments that are reached, each with the store
that it is expanded from. -/
namespace EnvTemplate

open VariableStore

namespace Segment

def name? : Segment → Option Text
  | literal _ => none
  | plain name _ => some name
  | braced name _ _ => some name

def IsNamed (g : Segment) : Prop := ∀ n ∈ g.name?, Name.isValid n = true

theorem WellFormed.isNamed {g : Segment} (h : WellFormed g) : g.IsNamed := by
  intro n hn
  cases h with
  | bare hv => exact Option.some.inj hn ▸ hv
  | plain hv => exact Option.some.inj hn ▸ hv
  | braced _ hv _ => exact Option.some.inj hn ▸ hv
  | _ => cases hn

theorem Canonical.wellFormed {gs : List Segment} (h : Canonical gs) : ∀ g ∈ gs, WellFormed g := by
  induction h with
  | nil => simp
  | cons hg _ _ ih =>
    intro g hm
    rcases List.mem_cons.mp hm with rfl | hm
    · exact hg
    · exact ih g hm

theorem isNamed_of_mem_scan {t : Text} {g : Segment} (hg : g ∈ (scan t).segments) : g.IsNamed :=
  ((canonical_scan t).wellFormed g hg).isNamed

variable {σ : Type} [VariableStore σ]

theorem store_expand (rule : UnsetRule) (s : σ) (g : Segment) :
    (expand rule s g).store = s ∨
      ∃ n operand, g = braced n .assign operand ∧ value? s n = none ∧
        (expand rule s g).store = VariableStore.set s n operand := by
  generalize expand rule s g = a, expands rule s g = h
  cases h with
  | assigned hn => exact Or.inr ⟨_, _, rfl, hn, rfl⟩
  | _ => exact Or.inl rfl

def trace (rule : UnsetRule) : List Segment → σ → List (Segment × σ)
  | [], _ => []
  | g :: gs, s =>
    (g, s) :: match (expand rule s g).result with
      | .error _ => []
      | .ok _ => trace rule gs (expand rule s g).store

theorem trace_cons_of_ok {rule : UnsetRule} {g : Segment} {s : σ} {text : Text}
    (h : (expand rule s g).result = .ok text) (gs : List Segment) :
    trace rule (g :: gs) s = (g, s) :: trace rule gs (expand rule s g).store := by
  rw [trace, h]

theorem trace_cons_of_error {rule : UnsetRule} {g : Segment} {s : σ} {e : ExpansionError}
    (h : (expand rule s g).result = .error e) (gs : List Segment) :
    trace rule (g :: gs) s = [(g, s)] := by
  rw [trace, h]

theorem expandAll_cons_of_ok {rule : UnsetRule} {g : Segment} {s : σ} {text : Text}
    (h : (expand rule s g).result = .ok text) (gs : List Segment) :
    (expandAll rule (g :: gs) s).store = (expandAll rule gs (expand rule s g).store).store ∧
      (expandAll rule (g :: gs) s).result =
        (expandAll rule gs (expand rule s g).store).result.map (text ++ ·) := by
  rw [expandAll, Outcome.andThen, h]
  exact ⟨rfl, rfl⟩

theorem expandAll_cons_of_error {rule : UnsetRule} {g : Segment} {s : σ} {e : ExpansionError}
    (h : (expand rule s g).result = .error e) (gs : List Segment) :
    expandAll rule (g :: gs) s = expand rule s g := by
  rw [expandAll, Outcome.andThen_of_error h]

/-- A property of stores that assignments keep is kept by segments expanded one after another.  The
assignments are those to variables that are not set. -/
theorem expandAll_invariant (rule : UnsetRule) {P : σ → Prop} {gs : List Segment}
    (hgs : ∀ g ∈ gs, g.IsNamed)
    (hset : ∀ s n operand, Name.isValid n = true → value? s n = none → P s →
      P (VariableStore.set s n operand))
    {s : σ} (h : P s) : P (expandAll rule gs s).store := by
  induction gs generalizing s with
  | nil => exact h
  | cons g gs ih =>
    have hstep : P (expand rule s g).store := by
      rcases store_expand rule s g with he | ⟨n, operand, rfl, hn, he⟩
      · rw [he]
        exact h
      · rw [he]
        exact hset s n operand (hgs _ List.mem_cons_self n rfl) hn h
    cases hr : (expand rule s g).result with
    | error e =>
      rw [expandAll_cons_of_error hr]
      exact hstep
    | ok text =>
      rw [(expandAll_cons_of_ok hr gs).1]
      exact ih (fun g' hg' => hgs g' (List.mem_cons_of_mem g hg')) hstep

end Segment

variable {σ : Type} [VariableStore σ]

/-- The segments of a template that are reached, each with the store that it is expanded from. -/
def trace (rule : UnsetRule) (template : Text) (s : σ) : List (Segment × σ) :=
  Segment.trace rule (scan template).segments s

theorem store_expand_eq (rule : UnsetRule) (t : Text) (s : σ) :
    (expand rule t s).store = (Segment.expandAll rule (scan t).segments s).store := by
  rw [expand_eq_scan, Scan.expand]
  generalize Segment.expandAll rule (scan t).segments s = a
  rcases a with ⟨e | text, s', j⟩
  · rfl
  · cases (scan t).unclosed <;> rfl

/-- A template fails as its segments do, or else with its unclosed brace. -/
theorem result_expand_eq_error_iff {rule : UnsetRule} {t : Text} {s : σ} {e : ExpansionError} :
    (expand rule t s).result = .error e ↔
      (Segment.expandAll rule (scan t).segments s).result = .error e ∨
        (∃ text, (Segment.expandAll rule (scan t).segments s).result = .ok text) ∧
          ∃ u, (scan t).unclosed = some u ∧ e = .unclosed u := by
  rw [expand_eq_scan, Scan.expand, Outcome.andThen_eq_error_iff]
  cases (scan t).unclosed with
  | none => simp [Outcome.done]
  | some u => simp [eq_comm]

theorem result_expand_eq_ok_iff {rule : UnsetRule} {t text : Text} {s : σ} :
    (expand rule t s).result = .ok text ↔
      (Segment.expandAll rule (scan t).segments s).result = .ok text ∧ (scan t).unclosed = none := by
  rw [expand_eq_scan, Scan.expand, Outcome.andThen_eq_ok_iff]
  cases (scan t).unclosed <;> simp [Outcome.done]

end EnvTemplate
