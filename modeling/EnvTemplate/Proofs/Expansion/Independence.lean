import EnvTemplate.Proofs.Expansion.Assignments
import EnvTemplate.Proofs.Expansion.Inertness

/-! Templates that may be expanded in any order.  An expansion looks at the variables of its placeholders
alone, and it writes those that it assigns.  So two templates, neither of which assigns a variable of
the other, come to the same in both orders, also where one of them fails. -/
namespace EnvTemplate

open VariableStore

namespace Outcome

variable {ε σ : Type}

/-- Two expansions that do not notice each other: each comes to the same before and after the other
one, and the store does not show which was first. -/
structure CommutesAt (f g : σ → Outcome ε σ) (s : σ) : Prop where
  left : (f (g s).store).result = (f s).result
  right : (g (f s).store).result = (g s).result
  store : (g (f s).store).store = (f (g s).store).store

def Commutes (f g : σ → Outcome ε σ) : Prop := ∀ s, CommutesAt f g s

namespace Commutes

variable {f f' g : σ → Outcome ε σ}

theorem symm (h : Commutes f g) : Commutes g f :=
  fun s => ⟨(h s).right, (h s).left, (h s).store.symm⟩

theorem of_still (hr : ∀ s s', (f s).result = (f s').result) (hs : ∀ s, (f s).store = s)
    (g : σ → Outcome ε σ) : Commutes f g :=
  fun s => ⟨hr _ s, by rw [hs], by rw [hs, hs]⟩

theorem done (g : σ → Outcome ε σ) : Commutes Outcome.done g :=
  of_still (fun _ _ => rfl) (fun _ => rfl) g

end Commutes

theorem andThen_of_ok {a : Outcome ε σ} {text : Text} (h : a.result = .ok text)
    (next : σ → Outcome ε σ) :
    (a.andThen next).result = (next a.store).result.map (text ++ ·) ∧
      (a.andThen next).store = (next a.store).store := by
  rw [andThen, h]
  exact ⟨rfl, rfl⟩

/-- If both parts of an expansion commute with another one, then so does the whole.  It may end with
its first part, before or after the other one alike. -/
theorem Commutes.andThen {f f' g : σ → Outcome ExpansionError σ} (h : Commutes f g)
    (h' : Commutes f' g) : Commutes (fun s => (f s).andThen f') g := by
  intro s
  have hf := h s
  cases hr : (f s).result with
  | error e =>
    have hfirst : (f s).andThen f' = f s := andThen_of_error hr f'
    have hlast : (f (g s).store).andThen f' = f (g s).store := andThen_of_error (hf.left.trans hr) f'
    constructor
    · rw [hfirst, hlast, hf.left]
    · rw [hfirst, hf.right]
    · rw [hfirst, hlast, hf.store]
  | ok text =>
    have hf' := h' (f s).store
    obtain ⟨hr₁, hs₁⟩ := andThen_of_ok hr f'
    obtain ⟨hr₂, hs₂⟩ := andThen_of_ok (hf.left.trans hr) f'
    constructor
    · rw [hr₁, hr₂, ← hf.store, hf'.left]
    · rw [hs₁, hf'.right, hf.right]
    · rw [hs₁, hs₂, hf'.store, hf.store]

end Outcome

namespace Segment

def target? : Segment → Option Text
  | braced n .assign _ => some n
  | _ => none

/-- Two segments, neither of which may assign the variable of the other. -/
def Apart (g g' : Segment) : Prop :=
  (∀ n ∈ g.target?, n ∉ g'.name?) ∧ ∀ n ∈ g'.target?, n ∉ g.name?

instance (g g' : Segment) : Decidable (Apart g g') :=
  inferInstanceAs (Decidable (_ ∧ _))

theorem Apart.symm {g g' : Segment} (h : Apart g g') : Apart g' g := ⟨h.2, h.1⟩

theorem target?_of_assignment? {g : Segment} {set : Bool} {n operand : Text}
    (h : g.assignment? set = some (n, operand)) : g.target? = some n ∧ g.name? = some n := by
  unfold assignment? at h
  split at h
  · cases h
    exact ⟨rfl, rfl⟩
  · cases h

variable {σ : Type} [VariableStore σ]

theorem isSet_congr {s s' : σ} {g : Segment} (h : ∀ n ∈ g.name?, value? s n = value? s' n) :
    g.isSet s = g.isSet s' := by
  cases hn : g.name? with
  | none => simp [isSet, hn]
  | some n => simp [isSet, hn, h n hn]

theorem expandAll_commutes (rule : UnsetRule) {gs : List Segment}
    {f : σ → Outcome ExpansionError σ}
    (h : ∀ g ∈ gs, Outcome.Commutes (fun s => expand rule s g) f) :
    Outcome.Commutes (expandAll rule gs) f := by
  induction gs with
  | nil => exact .done f
  | cons g gs ih =>
    exact (h g List.mem_cons_self).andThen (ih fun g' hg' => h g' (List.mem_cons_of_mem g hg'))

variable [LawfulStore σ]

theorem value?_store_expand (rule : UnsetRule) (s : σ) {g : Segment} {n : Text}
    (hn : Name.isValid n = true) (hg : n ∉ g.target?) :
    value? (expand rule s g).store n = value? s n := by
  rcases store_expand rule s g with he | ⟨m, operand, rfl, -, he⟩
  · rw [he]
  · have hm : n ≠ m := fun h => hg (h ▸ rfl)
    rw [he]
    cases ha : accepts s operand with
    | false => rw [LawfulStore.set_refused s m ha]
    | true => simp only [value?, LawfulStore.get?_set s m ha hn, if_neg hm]

/-- A segment comes to the same, and assigns the same, after one that is apart from it. -/
theorem Apart.value?_eq {g g' : Segment} (h : Apart g g') (hg : g.IsNamed) (rule : UnsetRule)
    (s : σ) : ∀ n ∈ g.name?, value? (expand rule s g').store n = value? s n :=
  fun n hn => value?_store_expand rule s (hg n hn) fun ht => h.2 n ht hn

theorem Apart.commutes {g g' : Segment} (h : Apart g g') (hg : g.IsNamed) (hg' : g'.IsNamed)
    (rule rule' : UnsetRule) :
    Outcome.Commutes (σ := σ) (fun s => expand rule s g) fun s => expand rule' s g' := by
  intro s
  have hv := h.value?_eq hg rule' s
  have hv' := h.symm.value?_eq hg' rule s
  refine ⟨result_expand_congr rule hv, result_expand_congr rule' hv', ?_⟩
  show (expand rule' (expand rule s g).store g').store = (expand rule (expand rule' s g').store g).store
  -- Both assign what they assign to the first store, and not to one variable.
  rw [store_expand_of_isSet rule' (expand rule s g).store, isSet_congr hv',
    store_expand_of_isSet rule (expand rule' s g').store, isSet_congr hv,
    store_expand_of_isSet rule s, store_expand_of_isSet rule' s]
  cases ha : g.assignment? (g.isSet s) with
  | none => rfl
  | some p =>
    cases ha' : g'.assignment? (g'.isSet s) with
    | none => rfl
    | some p' =>
      obtain ⟨ht, -⟩ := target?_of_assignment? ha
      obtain ⟨-, hn'⟩ := target?_of_assignment? ha'
      have hne : p.1 ≠ p'.1 := fun he => h.1 p.1 ht (he ▸ hn')
      exact LawfulStore.set_comm s hne p.2 p'.2

end Segment

/-- Two templates, neither of which may assign a variable of the other. -/
def Independent (a b : Text) : Prop :=
  ∀ g ∈ (scan a).segments, ∀ g' ∈ (scan b).segments, g.Apart g'

instance (a b : Text) : Decidable (Independent a b) :=
  inferInstanceAs (Decidable (∀ g ∈ (scan a).segments, ∀ g' ∈ (scan b).segments, g.Apart g'))

variable {σ : Type} [VariableStore σ]

/-- What commutes with each segment of a template commutes with the template.  The report of an
unclosed brace does not depend on the store. -/
theorem expand_commutes (rule : UnsetRule) (t : Text) {f : σ → Outcome ExpansionError σ}
    (h : Outcome.Commutes (Segment.expandAll rule (scan t).segments) f) :
    Outcome.Commutes (expand rule t) f := by
  have he : (expand rule t : σ → Outcome ExpansionError σ) = (scan t).expand rule :=
    funext (expand_eq_scan rule t)
  rw [he]
  refine h.andThen (.of_still (fun s s' => ?_) (fun s => ?_) f) <;> cases (scan t).unclosed <;> rfl

variable [LawfulStore σ]

theorem Independent.symm {a b : Text} (h : Independent a b) : Independent b a :=
  fun g' hg' g hg => (h g hg g' hg').symm

theorem Independent.commutes {a b : Text} (h : Independent a b) (rule rule' : UnsetRule) :
    Outcome.Commutes (σ := σ) (expand rule a) (expand rule' b) := by
  refine expand_commutes rule a (Segment.expandAll_commutes rule fun g hg => ?_)
  refine (expand_commutes rule' b (Segment.expandAll_commutes rule' fun g' hg' => ?_)).symm
  exact ((h g hg g' hg').commutes (Segment.isNamed_of_mem_scan hg) (Segment.isNamed_of_mem_scan hg')
    rule rule').symm

/-- Independent templates come to the same in both orders, against each kind of store. -/
theorem independent_templates_commute {a b : Text} (h : Independent a b) (rule rule' : UnsetRule) :
    (∀ s : Vars, Outcome.CommutesAt (expand rule a) (expand rule' b) s) ∧
      (∀ s : Layered, Outcome.CommutesAt (expand rule a) (expand rule' b) s) ∧
        ∀ s : Environment, Outcome.CommutesAt (expand rule a) (expand rule' b) s :=
  ⟨h.commutes rule rule', h.commutes rule rule', h.commutes rule rule'⟩

theorem independent_templates_commute_missing :
    let a := "${A:=1}${X:?none}$D".toList
    let b := "${B:=2}$X${C:-3}".toList
    Independent a b ∧ (expand .empty a (∅ : Vars)).result.toOption = none ∧
      Outcome.CommutesAt (expand .empty a) (expand .keep b) (∅ : Vars) := by
  intro a b
  have h : Independent a b := by decide +kernel
  exact ⟨h, by decide +kernel, (independent_templates_commute h .empty .keep).1 ∅⟩

namespace Session

theorem result_expand_run (rule : UnsetRule) {t : Text} {calls : List Call}
    (h : ∀ call ∈ calls, Independent t call.2) (s : σ) :
    (expand rule t (run calls s)).result = (expand rule t s).result := by
  induction calls generalizing s with
  | nil => rfl
  | cons call calls ih =>
    obtain ⟨rule', t'⟩ := call
    rw [run, ih fun c hc => h c (List.mem_cons_of_mem _ hc)]
    exact ((h _ List.mem_cons_self).commutes rule rule' s).left

/-- Templates that are independent of each other leave the same store in any order. -/
theorem run_perm {calls calls' : List Call} (hp : calls.Perm calls')
    (h : calls.Pairwise fun c c' => Independent c.2 c'.2) (s : σ) : run calls s = run calls' s := by
  induction hp generalizing s with
  | nil => rfl
  | cons call _ ih => exact ih h.of_cons (expand call.1 call.2 s).store
  | swap c c' calls =>
    have hc : Independent c'.2 c.2 := List.rel_of_pairwise_cons h List.mem_cons_self
    exact congrArg (run calls) (hc.commutes c'.1 c.1 s).store
  | trans hp₁ _ ih₁ ih₂ =>
    exact (ih₁ h s).trans (ih₂ ((hp₁.pairwise_iff fun hc => hc.symm).mp h) s)

end Session
end EnvTemplate
