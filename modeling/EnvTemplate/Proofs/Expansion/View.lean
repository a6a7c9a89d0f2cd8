import EnvTemplate.Proofs.Expansion.Trace

/-! Stores that are seen as other stores.  Where a store and what is seen of it have the same values for
variables, and assignments to the store are seen, an expansion comes to the same result against both,
and what it leaves is seen too. -/
namespace EnvTemplate

open VariableStore

variable {σ τ : Type} [VariableStore σ] [VariableStore τ]

/-- A store is seen as another one, which has the same variables and follows each assignment. -/
structure IsView (f : σ → τ) : Prop where
  get? (s : σ) {n : Text} (hn : Name.isValid n = true) : get? (f s) n = get? s n
  set (s : σ) (n value : Text) : f (set s n value) = set (f s) n value

namespace IsView

variable {f : σ → τ}

theorem value?_eq (hf : IsView f) (s : σ) {n : Text} (hn : Name.isValid n = true) :
    value? (f s) n = value? s n := by
  simp only [value?, hf.get? s hn]

theorem expandSegment (hf : IsView f) (rule : UnsetRule) (s : σ) {g : Segment} (hg : g.IsNamed) :
    (Segment.expand rule (f s) g).result = (Segment.expand rule s g).result ∧
      (Segment.expand rule (f s) g).store = f (Segment.expand rule s g).store := by
  cases g with
  | literal text => exact ⟨rfl, rfl⟩
  | plain n raw =>
    have hv := hf.value?_eq s (hg n rfl)
    cases hs : value? s n <;> cases rule <;> simp [Segment.expand, hv, hs]
  | braced n op operand =>
    have hv := hf.value?_eq s (hg n rfl)
    cases hs : value? s n <;> cases op <;> simp [Segment.expand, hv, hs, hf.set]

theorem expandAll (hf : IsView f) (rule : UnsetRule) {gs : List Segment}
    (hgs : ∀ g ∈ gs, g.IsNamed) (s : σ) :
    (Segment.expandAll rule gs (f s)).result = (Segment.expandAll rule gs s).result ∧
      (Segment.expandAll rule gs (f s)).store = f (Segment.expandAll rule gs s).store := by
  induction gs generalizing s with
  | nil => exact ⟨rfl, rfl⟩
  | cons g gs ih =>
    obtain ⟨hr, hs⟩ := hf.expandSegment rule s (hgs g List.mem_cons_self)
    cases h : (Segment.expand rule s g).result with
    | error e =>
      rw [Segment.expandAll_cons_of_error (hr.trans h), Segment.expandAll_cons_of_error h]
      exact ⟨hr, hs⟩
    | ok text =>
      obtain ⟨hs₁, hr₁⟩ := Segment.expandAll_cons_of_ok (hr.trans h) gs
      obtain ⟨hs₂, hr₂⟩ := Segment.expandAll_cons_of_ok h gs
      obtain ⟨ihr, ihs⟩ := ih (fun g' hg' => hgs g' (List.mem_cons_of_mem g hg'))
        (Segment.expand rule s g).store
      rw [hs₁, hs₂, hr₁, hr₂, hs, ihr, ihs]
      exact ⟨rfl, rfl⟩

theorem expand (hf : IsView f) (rule : UnsetRule) (t : Text) (s : σ) :
    (EnvTemplate.expand rule t (f s)).result = (EnvTemplate.expand rule t s).result ∧
      (EnvTemplate.expand rule t (f s)).store = f (EnvTemplate.expand rule t s).store := by
  obtain ⟨hr, hs⟩ := hf.expandAll rule (fun _ hg => Segment.isNamed_of_mem_scan hg) s
  refine ⟨?_, by rw [store_expand_eq, store_expand_eq, hs]⟩
  cases h : (EnvTemplate.expand rule t s).result with
  | error e => rwa [result_expand_eq_error_iff, hr, ← result_expand_eq_error_iff]
  | ok text => rwa [result_expand_eq_ok_iff, hr, ← result_expand_eq_ok_iff]

end IsView
end EnvTemplate
