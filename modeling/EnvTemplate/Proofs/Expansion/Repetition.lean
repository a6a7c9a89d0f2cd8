import EnvTemplate.Proofs.Expansion.Trace
import EnvTemplate.Proofs.Store.Laws

/-! Expanding a template twice.  The second time the store is that which the first time left: there
every placeholder that was passed is settled, which means that it does not fail and that it leaves the
store as it is.  So the second time ends where the first one did, and changes nothing. -/
namespace EnvTemplate

open VariableStore

/-- The outcome of an expansion from the store that another one left: it leaves that store too, and it
fails if and only if the other one did, with the same error. -/
structure Outcome.Repeats {ε σ : Type} (again first : Outcome ε σ) : Prop where
  store : again.store = first.store
  ok : (∃ text, again.result = .ok text) ↔ ∃ text, first.result = .ok text
  error : ∀ e, first.result = .error e → again.result = .error e

namespace Outcome.Repeats

theorem refl {ε σ : Type} (a : Outcome ε σ) : a.Repeats a := ⟨rfl, Iff.rfl, fun _ => id⟩

theorem andThen {σ : Type} {again first : Outcome ExpansionError σ}
    {next : σ → Outcome ExpansionError σ} {u v : Text} (hu : again.result = .ok u)
    (hv : first.result = .ok v) (h : (next again.store).Repeats (next first.store)) :
    (again.andThen next).Repeats (first.andThen next) := by
  refine ⟨?_, ?_, fun e he => ?_⟩
  · rw [Outcome.andThen, hu, Outcome.andThen, hv]
    exact h.store
  · constructor
    · rintro ⟨_, ht⟩
      obtain ⟨_, w, -, hw, -⟩ := Outcome.andThen_eq_ok_iff.mp ht
      obtain ⟨w', hw'⟩ := h.ok.mp ⟨w, hw⟩
      exact ⟨_, Outcome.andThen_eq_ok_iff.mpr ⟨v, w', hv, hw', rfl⟩⟩
    · rintro ⟨_, ht⟩
      obtain ⟨_, w, -, hw, -⟩ := Outcome.andThen_eq_ok_iff.mp ht
      obtain ⟨w', hw'⟩ := h.ok.mpr ⟨w, hw⟩
      exact ⟨_, Outcome.andThen_eq_ok_iff.mpr ⟨u, w', hu, hw', rfl⟩⟩
  · rcases Outcome.andThen_eq_error_iff.mp he with h' | ⟨_, -, h'⟩
    · rw [hv] at h'
      cases h'
    · exact Outcome.andThen_eq_error_iff.mpr (Or.inr ⟨u, hu, h.error e h'⟩)

end Outcome.Repeats

variable {σ : Type} [VariableStore σ] [LawfulStore σ]

namespace VariableStore

theorem value?_set_of_unset {s : σ} {n m v : Text} (hn : Name.isValid n = true)
    (hv : value? s n = some v) (hm : value? s m = none) (operand : Text) :
    value? (set s m operand) n = some v := by
  cases ha : accepts s operand with
  | false => rwa [LawfulStore.set_refused s m ha]
  | true =>
    have hne : n ≠ m := by
      rintro rfl
      rw [hv] at hm
      cases hm
    rw [value?_eq_some_iff, LawfulStore.get?_set s m ha hn, if_neg hne]
    exact value?_eq_some_iff.mp hv

theorem set_again (s : σ) (n operand : Text) :
    set (set s n operand) n operand = set s n operand := by
  cases ha : accepts s operand with
  | false => rw [LawfulStore.set_refused s n ha, LawfulStore.set_refused s n ha]
  | true => exact LawfulStore.set_set s n operand ha

/-- An assignment that changes nothing still changes nothing after an assignment to a variable that
is not set, unless its own variable has got a value. -/
theorem set_eq_self_of_unset {s : σ} {n m w : Text} (hn : Name.isValid n = true)
    (hw : set s n w = s) (hm : value? s m = none) (operand : Text) :
    (value? (set s m operand) n).isSome ∨ set (set s m operand) n w = set s m operand := by
  by_cases hne : m = n
  · subst hne
    cases ha : accepts s operand with
    | false =>
      rw [LawfulStore.set_refused s m ha]
      exact Or.inr hw
    | true =>
      have hg : get? (set s m operand) m = some operand := by
        rw [LawfulStore.get?_set s m ha hn, if_pos rfl]
      by_cases ho : operand = []
      · subst ho
        refine Or.inr ?_
        cases hb : accepts s w with
        | false => exact LawfulStore.set_refused _ m ((LawfulStore.accepts_set s m [] w).trans hb)
        | true =>
          have hgw : get? s m = some w := by
            rw [← hw, LawfulStore.get?_set s m hb hn, if_pos rfl]
          have hw0 : w = [] := by
            rcases value?_eq_none_iff.mp hm with h | h
            · rw [hgw] at h
              cases h
            · rw [hgw] at h
              exact Option.some.inj h
          rw [hw0]
          exact set_again s m []
      · left
        rw [value?_eq_some_iff.mpr ⟨hg, ho⟩]
        rfl
  · right
    rw [LawfulStore.set_comm s hne operand w, hw]

end VariableStore

namespace Segment

/-- A segment that does not fail and leaves the store as it is. -/
def IsSettled (s : σ) : Segment → Prop
  | braced n .required _ => (value? s n).isSome
  | braced n .assign operand => (value? s n).isSome ∨ VariableStore.set s n operand = s
  | _ => True

omit [LawfulStore σ] in
theorem IsSettled.outcome (rule : UnsetRule) {s : σ} {g : Segment} (h : g.IsSettled s) :
    (∃ text, (expand rule s g).result = .ok text) ∧ (expand rule s g).store = s := by
  generalize hg : expand rule s g = a
  have hx := expands rule s g
  rw [hg] at hx
  cases hx with
  | missing hn => simp [IsSettled, hn] at h
  | assigned hn =>
    refine ⟨⟨_, rfl⟩, ?_⟩
    simpa [IsSettled, hn] using h
  | _ => exact ⟨⟨_, rfl⟩, rfl⟩

theorem isSettled_expand {rule : UnsetRule} {s : σ} {g : Segment} {text : Text}
    (h : (expand rule s g).result = .ok text) : g.IsSettled (expand rule s g).store := by
  generalize expand rule s g = a, expands rule s g = hx at h
  cases hx with
  | @bracedSet n _ _ op hn =>
    cases op with
    | required => simp [IsSettled, hn]
    | assign => simp [IsSettled, hn]
    | _ => trivial
  | missing => cases h
  | assigned => exact Or.inr (set_again s _ _)
  | _ => trivial

theorem IsSettled.set {s : σ} {g : Segment} (hg : g.IsNamed) (h : g.IsSettled s) {m : Text}
    (hm : value? s m = none) (operand : Text) : g.IsSettled (VariableStore.set s m operand) := by
  have hsome : ∀ n, Name.isValid n = true → (value? s n).isSome →
      (value? (VariableStore.set s m operand) n).isSome := by
    intro n hn hv
    obtain ⟨v, hv⟩ := Option.isSome_iff_exists.mp hv
    rw [value?_set_of_unset hn hv hm operand]
    rfl
  cases g with
  | literal _ => trivial
  | plain _ _ => trivial
  | braced n op w =>
    have hn : Name.isValid n = true := hg n rfl
    cases op with
    | fallback => trivial
    | alternative => trivial
    | required => exact hsome n hn h
    | assign =>
      rcases h with h | h
      · exact Or.inl (hsome n hn h)
      · exact set_eq_self_of_unset hn h hm operand

/-- Segments are expanded again as they were, and leave the store as they left it. -/
theorem expandAll_repeats (rule : UnsetRule) {gs : List Segment} (hgs : ∀ g ∈ gs, g.IsNamed) (s : σ) :
    (expandAll rule gs (expandAll rule gs s).store).Repeats (expandAll rule gs s) := by
  induction gs generalizing s with
  | nil => exact .refl _
  | cons g gs ih =>
    have hg := hgs g List.mem_cons_self
    have hgs' : ∀ g' ∈ gs, g'.IsNamed := fun g' hg' => hgs g' (List.mem_cons_of_mem g hg')
    cases hr : (expand rule s g).result with
    | error e =>
      have hs : (expand rule s g).store = s := by
        rcases store_expand rule s g with hs | ⟨n, operand, rfl, hn, -⟩
        · exact hs
        · simp [expand, hn] at hr
      rw [expandAll_cons_of_error hr, hs, expandAll_cons_of_error hr]
      exact .refl _
    | ok text =>
      rw [(expandAll_cons_of_ok hr gs).1]
      have hset : g.IsSettled (expandAll rule gs (expand rule s g).store).store :=
        expandAll_invariant rule hgs' (P := fun s => g.IsSettled s)
          (fun s n operand _ hn h => h.set hg hn operand) (isSettled_expand hr)
      obtain ⟨⟨text', hr'⟩, hs'⟩ := hset.outcome rule
      refine Outcome.Repeats.andThen hr' hr ?_
      rw [hs']
      exact ih hgs' (expand rule s g).store

end Segment

theorem expand_repeats (rule : UnsetRule) (t : Text) (s : σ) :
    (expand rule t (expand rule t s).store).Repeats (expand rule t s) := by
  have h := Segment.expandAll_repeats rule
    (fun _ hg => Segment.isNamed_of_mem_scan (t := t) hg) s
  rw [store_expand_eq, expand_eq_scan, expand_eq_scan, Scan.expand, Scan.expand]
  cases hr : (Segment.expandAll rule (scan t).segments s).result with
  | error e =>
    rw [Outcome.andThen_of_error hr, Outcome.andThen_of_error (h.error e hr)]
    exact h
  | ok text =>
    obtain ⟨text', hr'⟩ := h.ok.mpr ⟨text, hr⟩
    refine Outcome.Repeats.andThen hr' hr ?_
    rw [h.store]
    exact .refl _

/-- Expanding a template again is stable, whatever the store: from the store that the first expansion
left it leaves that store, it succeeds if and only if the first one did, and it fails with the same
error. -/
theorem expand_again_stable (rule : UnsetRule) (t : Text) :
    (∀ s : Vars, (expand rule t (expand rule t s).store).Repeats (expand rule t s)) ∧
      (∀ s : Layered, (expand rule t (expand rule t s).store).Repeats (expand rule t s)) ∧
      ∀ s : Environment, (expand rule t (expand rule t s).store).Repeats (expand rule t s) :=
  ⟨expand_repeats rule t, expand_repeats rule t, expand_repeats rule t⟩

end EnvTemplate
