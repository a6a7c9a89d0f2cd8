import EnvTemplate.Proofs.Expansion.Trace
import EnvTemplate.Proofs.Store.Laws

/-! Values are inert.  Which way an expansion takes depends on which variables are set and on nothing
else about the store: two stores that have the same variables set lead to the same errors and the same
assignments, and the two outputs consist of the same pieces, which are parts of the template and
references to variables.  So the text of a value is never looked at. -/
namespace EnvTemplate

open VariableStore

/-- Two stores, maybe of different kinds, that have the same variables set. -/
def SameSet {σ τ : Type} [VariableStore σ] [VariableStore τ] (s : σ) (s' : τ) : Prop :=
  ∀ n, Name.isValid n = true → (value? s n).isSome = (value? s' n).isSome

/-- A part of an output. -/
inductive Piece
  | slice (text : Text)
  | reference (name : Text)
  deriving DecidableEq

namespace Piece

/-- A piece that a template can lead to. -/
inductive IsFrom (template : Text) : Piece → Prop
  | slice {text : Text} (h : text <:+: template) : IsFrom template (slice text)
  | reference {name : Text} (h : Name.isValid name = true) : IsFrom template (reference name)

/-- A text that consists of pieces.  There is one store for each of them, in which the variable of a
reference is looked up. -/
inductive Fill {σ : Type} [VariableStore σ] : List Piece → List σ → Text → Prop
  | nil : Fill [] [] []
  | slice {pieces : List Piece} {stores : List σ} {rest : Text} (text : Text) (s : σ)
      (h : Fill pieces stores rest) : Fill (slice text :: pieces) (s :: stores) (text ++ rest)
  | reference {pieces : List Piece} {stores : List σ} {rest name value : Text} {s : σ}
      (hv : value? s name = some value) (h : Fill pieces stores rest) :
      Fill (reference name :: pieces) (s :: stores) (value ++ rest)

end Piece

namespace Segment

def failure? : Bool → Segment → Option ExpansionError
  | false, braced n .required operand => some (.missing n operand)
  | _, _ => none

def assignment? : Bool → Segment → Option (Text × Text)
  | false, braced n .assign operand => some (n, operand)
  | _, _ => none

def piece (rule : UnsetRule) : Bool → Segment → Piece
  | _, literal text => .slice text
  | true, plain n _ => .reference n
  | false, plain _ raw => .slice (if rule = .keep then raw else [])
  | true, braced _ .alternative operand => .slice operand
  | false, braced _ .alternative _ => .slice []
  | true, braced n _ _ => .reference n
  | false, braced _ _ operand => .slice operand

section Step

variable {σ : Type} [VariableStore σ]

def isSet (s : σ) (g : Segment) : Bool := g.name?.any fun n => (value? s n).isSome

theorem result_eq_error_iff {rule : UnsetRule} {s : σ} {g : Segment} {e : ExpansionError} :
    (expand rule s g).result = .error e ↔ g.failure? (g.isSet s) = some e := by
  generalize expand rule s g = a, expands rule s g = h
  cases h with
  | literal => simp [failure?]
  | plainSet => simp [failure?]
  | plainEmpty => simp [failure?]
  | plainKept => simp [failure?]
  | bracedSet hv => simp [failure?, isSet, name?, hv]
  | alternative => simp [failure?]
  | noAlternative => simp [failure?]
  | fallback => simp [failure?]
  | missing hv => simp [failure?, isSet, name?, hv]
  | assigned => simp [failure?]

theorem store_expand_of_isSet (rule : UnsetRule) (s : σ) (g : Segment) :
    (expand rule s g).store =
      match g.assignment? (g.isSet s) with
      | some (n, operand) => VariableStore.set s n operand
      | none => s := by
  generalize expand rule s g = a, expands rule s g = h
  cases h with
  | bracedSet hv => simp [assignment?, isSet, name?, hv]
  | assigned hv => simp [assignment?, isSet, name?, hv]
  | _ => simp [assignment?]

theorem isSet_of_value {s : σ} {g : Segment} {n v : Text} (hn : g.name? = some n)
    (hv : value? s n = some v) : g.isSet s = true := by
  simp [isSet, hn, hv]

theorem isSet_of_unset {s : σ} {g : Segment} {n : Text} (hn : g.name? = some n)
    (hv : value? s n = none) : g.isSet s = false := by
  simp [isSet, hn, hv]

theorem fill_cons {rule : UnsetRule} {s : σ} {g : Segment} {text rest : Text}
    {pieces : List Piece} {stores : List σ} (hg : (expand rule s g).result = .ok text)
    (h : Piece.Fill pieces stores rest) :
    Piece.Fill (g.piece rule (g.isSet s) :: pieces) (s :: stores) (text ++ rest) := by
  generalize expand rule s g = a, expands rule s g = hx at hg
  cases hx with
  | literal =>
    cases hg
    exact .slice _ s h
  | plainSet hv =>
    cases hg
    rw [isSet_of_value rfl hv]
    exact .reference hv h
  | plainEmpty hv hr =>
    cases hg
    rw [isSet_of_unset rfl hv, hr]
    exact .slice [] s h
  | plainKept hv hr =>
    cases hg
    rw [isSet_of_unset rfl hv, hr]
    exact .slice _ s h
  | @bracedSet _ _ _ op hv ho =>
    cases hg
    rw [isSet_of_value rfl hv]
    cases op with
    | alternative => exact absurd rfl ho
    | _ => exact .reference hv h
  | alternative hv =>
    cases hg
    rw [isSet_of_value rfl hv]
    exact .slice _ s h
  | noAlternative hv =>
    cases hg
    rw [isSet_of_unset rfl hv]
    exact .slice [] s h
  | fallback hv =>
    cases hg
    rw [isSet_of_unset rfl hv]
    exact .slice _ s h
  | missing => cases hg
  | assigned hv =>
    cases hg
    rw [isSet_of_unset rfl hv]
    exact .slice _ s h

def pieces (rule : UnsetRule) (steps : List (Segment × σ)) : List Piece :=
  steps.map fun step => step.1.piece rule (step.1.isSet step.2)

theorem fill_expandAll {rule : UnsetRule} {gs : List Segment} {s : σ} {text : Text}
    (h : (expandAll rule gs s).result = .ok text) :
    Piece.Fill (pieces rule (trace rule gs s)) ((trace rule gs s).map Prod.snd) text := by
  induction gs generalizing s text with
  | nil =>
    cases h
    exact .nil
  | cons g gs ih =>
    obtain ⟨u, v, hu, hv, rfl⟩ := Outcome.andThen_eq_ok_iff.mp h
    rw [trace_cons_of_ok hu]
    exact fill_cons hu (ih hv)

end Step

/-! ### Parts of a template -/

theorem piece_isFrom (rule : UnsetRule) (set : Bool) {t : Text} {g : Segment} (hn : g.IsNamed)
    (hg : g.source <:+: t) : (g.piece rule set).IsFrom t := by
  have hnil : Piece.IsFrom t (.slice []) := .slice (List.nil_infix)
  cases g with
  | literal text => exact .slice hg
  | plain n raw =>
    cases set with
    | true => exact .reference (hn n rfl)
    | false =>
      cases rule with
      | empty => exact hnil
      | keep => exact .slice hg
  | braced n op operand =>
    have ho : operand <:+: t := by
      refine List.IsInfix.trans ⟨'$' :: '{' :: (n ++ op.token), ['}'], ?_⟩ hg
      simp [source, inBraces]
    cases set with
    | true =>
      cases op with
      | alternative => exact .slice ho
      | _ => exact .reference (hn n rfl)
    | false =>
      cases op with
      | alternative => exact hnil
      | _ => exact .slice ho

theorem source_infix_sources {gs : List Segment} {g : Segment} (hg : g ∈ gs) :
    g.source <:+: sources gs := by
  obtain ⟨before, after, rfl⟩ := List.append_of_mem hg
  exact ⟨sources before, sources after, by simp [sources]⟩

theorem source_infix_of_mem_scan {t : Text} {g : Segment} (hg : g ∈ (scan t).segments) :
    g.source <:+: t := by
  obtain ⟨rest, ht, -⟩ := exists_leaves t
  refine (source_infix_sources hg).trans ?_
  conv => rhs; rw [ht]
  exact (List.prefix_append _ _).isInfix

theorem mem_of_mem_trace {σ : Type} [VariableStore σ] {rule : UnsetRule} {gs : List Segment} {s : σ}
    {step : Segment × σ} (h : step ∈ trace rule gs s) : step.1 ∈ gs := by
  induction gs generalizing s with
  | nil => cases h
  | cons g gs ih =>
    rcases List.mem_cons.mp h with rfl | h
    · exact List.mem_cons_self
    · cases hr : (expand rule s g).result with
      | error e => simp [hr] at h
      | ok text =>
        rw [hr] at h
        exact List.mem_cons_of_mem g (ih h)

/-! ### Two runs -/

section TwoRuns

variable {σ τ : Type} [VariableStore σ] [VariableStore τ] {R : σ → τ → Prop}

theorem isSet_eq {s : σ} {s' : τ} (h : SameSet s s') {g : Segment} (hg : g.IsNamed) :
    g.isSet s = g.isSet s' := by
  cases hn : g.name? with
  | none => simp [isSet, hn]
  | some n => simpa [isSet, hn] using h n (hg n hn)

/-- The result of a segment depends on the value of its variable alone. -/
theorem result_expand_congr (rule : UnsetRule) {s : σ} {s' : τ} {g : Segment}
    (h : ∀ n ∈ g.name?, value? s n = value? s' n) :
    (expand rule s g).result = (expand rule s' g).result := by
  cases g with
  | literal text => rfl
  | plain n raw =>
    have hn : value? s n = value? s' n := h n rfl
    cases hv : value? s' n <;> cases rule <;> simp [expand, hn, hv]
  | braced n op operand =>
    have hn : value? s n = value? s' n := h n rfl
    cases hv : value? s' n <;> cases op <;> simp [expand, hn, hv]

/-- Stores that are related stay so, if they have the same variables set and the same assignments to
both keep them related.  Both runs come to the same error, or to none, by the same pieces. -/
theorem expandAll_simulates (rule : UnsetRule) {gs : List Segment} (hgs : ∀ g ∈ gs, g.IsNamed)
    (hsame : ∀ s s', R s s' → SameSet s s')
    (hset : ∀ s s' n operand, R s s' →
      R (VariableStore.set s n operand) (VariableStore.set s' n operand))
    {s : σ} {s' : τ} (h : R s s') :
    R (expandAll rule gs s).store (expandAll rule gs s').store ∧
      (∀ e, (expandAll rule gs s).result = .error e ↔ (expandAll rule gs s').result = .error e) ∧
      pieces rule (trace rule gs s) = pieces rule (trace rule gs s') := by
  induction gs generalizing s s' with
  | nil => exact ⟨h, fun _ => Iff.rfl, rfl⟩
  | cons g gs ih =>
    have hgs' : ∀ g' ∈ gs, g'.IsNamed := fun g' hg' => hgs g' (List.mem_cons_of_mem g hg')
    have hb := isSet_eq (hsame s s' h) (hgs g List.mem_cons_self)
    have hstep : R (expand rule s g).store (expand rule s' g).store := by
      rw [store_expand_of_isSet, store_expand_of_isSet, ← hb]
      cases g.assignment? (g.isSet s) with
      | none => exact h
      | some a => exact hset s s' a.1 a.2 h
    have herr : ∀ e, (expand rule s g).result = .error e ↔ (expand rule s' g).result = .error e := by
      intro e
      rw [result_eq_error_iff, result_eq_error_iff, hb]
    cases hr : (expand rule s g).result with
    | error e =>
      have hr' := (herr e).mp hr
      rw [expandAll_cons_of_error hr, expandAll_cons_of_error hr', trace_cons_of_error hr,
        trace_cons_of_error hr']
      exact ⟨hstep, herr, by simp [pieces, hb]⟩
    | ok text =>
      cases hr' : (expand rule s' g).result with
      | error e => simp [(herr e).mpr hr'] at hr
      | ok text' =>
        obtain ⟨hR, he, hp⟩ := ih hgs' hstep
        rw [(expandAll_cons_of_ok hr gs).1, (expandAll_cons_of_ok hr' gs).1, trace_cons_of_ok hr,
          trace_cons_of_ok hr']
        refine ⟨hR, fun e => ?_, ?_⟩
        · simp only [expandAll, Outcome.andThen_eq_error_iff, hr, hr', he]
          simp
        · rw [pieces, pieces, List.map_cons, List.map_cons, hb]
          exact congrArg _ hp

end TwoRuns
end Segment

/-! ### The assignments of a run -/

/-- A store together with the assignments that were made to it. -/
structure Recorded (σ : Type) where
  base : σ
  calls : List (Text × Text)

namespace Recorded

variable {σ : Type} [VariableStore σ]

instance : VariableStore (Recorded σ) where
  get? s := get? s.base
  set s n value := ⟨set s.base n value, s.calls ++ [(n, value)]⟩
  accepts s := accepts s.base

theorem expandAll_base (rule : UnsetRule) (gs : List Segment) (s : Recorded σ) :
    (Segment.expandAll rule gs s).store.base = (Segment.expandAll rule gs s.base).store ∧
      (Segment.expandAll rule gs s).result = (Segment.expandAll rule gs s.base).result := by
  induction gs generalizing s with
  | nil => exact ⟨rfl, rfl⟩
  | cons g gs ih =>
    have hr : (Segment.expand rule s g).result = (Segment.expand rule s.base g).result :=
      Segment.result_expand_congr rule fun _ _ => rfl
    have hs : (Segment.expand rule s g).store.base = (Segment.expand rule s.base g).store := by
      have hset : g.isSet s = g.isSet s.base := rfl
      rw [Segment.store_expand_of_isSet, Segment.store_expand_of_isSet, hset]
      cases g.assignment? (g.isSet s.base) <;> rfl
    cases h : (Segment.expand rule s.base g).result with
    | error e =>
      rw [Segment.expandAll_cons_of_error (hr.trans h), Segment.expandAll_cons_of_error h]
      exact ⟨hs, hr⟩
    | ok text =>
      obtain ⟨hs₁, hr₁⟩ := Segment.expandAll_cons_of_ok (hr.trans h) gs
      obtain ⟨hs₂, hr₂⟩ := Segment.expandAll_cons_of_ok h gs
      obtain ⟨ihs, ihr⟩ := ih (Segment.expand rule s g).store
      rw [hs₁, hs₂, hr₁, hr₂, ihs, ihr, hs]
      exact ⟨rfl, rfl⟩

theorem expand_base (rule : UnsetRule) (t : Text) (s : Recorded σ) :
    (expand rule t s).store.base = (expand rule t s.base).store ∧
      (expand rule t s).result = (expand rule t s.base).result := by
  obtain ⟨hs, hr⟩ := expandAll_base rule (scan t).segments s
  refine ⟨by rw [store_expand_eq, store_expand_eq, hs], ?_⟩
  cases h : (expand rule t s.base).result with
  | error e =>
    rw [result_expand_eq_error_iff] at h ⊢
    rwa [hr]
  | ok text =>
    rw [result_expand_eq_ok_iff] at h ⊢
    rwa [hr]

end Recorded

variable {σ τ : Type} [VariableStore σ] [VariableStore τ]

def Recorded.Alike (s : Recorded σ) (s' : Recorded τ) : Prop :=
  SameSet s.base s'.base ∧ s.calls = s'.calls

/-- The assignments that expanding a template makes to a store, in their order. -/
def assignments (rule : UnsetRule) (t : Text) (s : σ) : List (Text × Text) :=
  (expand rule t (⟨s, []⟩ : Recorded σ)).store.calls

theorem SameSet.set [MapStore σ] [MapStore τ] {s : σ} {s' : τ} (h : SameSet s s') (n : Text)
    {v w : Text} (hvw : v = [] ↔ w = []) :
    SameSet (VariableStore.set s n v) (VariableStore.set s' n w) := by
  intro m hm
  have hg : get? (VariableStore.set s n v) m = if m = n then some v else get? s m :=
    MapStore.get?_set s n v m
  have hg' : get? (VariableStore.set s' n w) m = if m = n then some w else get? s' m :=
    MapStore.get?_set s' n w m
  by_cases hn : m = n
  · rw [if_pos hn] at hg hg'
    cases v with
    | nil => rw [value?, value?, hg, hg', hvw.mp rfl]
    | cons c v =>
      obtain ⟨d, w, rfl⟩ := List.exists_cons_of_ne_nil fun hw => List.cons_ne_nil c v (hvw.mpr hw)
      simp [value?, hg, hg']
  · rw [if_neg hn] at hg hg'
    rw [value?, value?, hg, hg']
    exact h m hm

theorem exists_ok_iff {ε α β : Type} {r : Except ε α} {r' : Except ε β}
    (h : ∀ e, r = .error e ↔ r' = .error e) : (∃ a, r = .ok a) ↔ ∃ b, r' = .ok b := by
  cases r with
  | error e => simp [(h e).mp rfl]
  | ok a =>
    cases r' with
    | error e => simpa using (h e).mpr rfl
    | ok b => simp

/-- Which way an expansion takes depends on which variables are set.  From two stores that have the
same variables set it comes to the same error or to none, and makes the same assignments; and there
are pieces, which are parts of the template and references to variables, such that each of the two
outputs consists of these pieces, with the values that its own store has when a piece is reached. -/
theorem values_are_inert [MapStore σ] [MapStore τ] (rule : UnsetRule) (t : Text) {s : σ} {s' : τ}
    (h : SameSet s s') :
    (∀ e, (expand rule t s).result = .error e ↔ (expand rule t s').result = .error e) ∧
      assignments rule t s = assignments rule t s' ∧
      ∃ pieces : List Piece, (∀ p ∈ pieces, p.IsFrom t) ∧
        (∀ text, (expand rule t s).result = .ok text →
          Piece.Fill pieces ((trace rule t s).map Prod.snd) text) ∧
        ∀ text, (expand rule t s').result = .ok text →
          Piece.Fill pieces ((trace rule t s').map Prod.snd) text := by
  have hgs : ∀ g ∈ (scan t).segments, g.IsNamed := fun g hg => Segment.isNamed_of_mem_scan hg
  obtain ⟨-, herr, hp⟩ := Segment.expandAll_simulates rule (R := SameSet) hgs (fun _ _ => id)
    (fun _ _ n _ h => h.set n Iff.rfl) h
  have hstart : Recorded.Alike (⟨s, []⟩ : Recorded σ) (⟨s', []⟩ : Recorded τ) := ⟨h, rfl⟩
  obtain ⟨⟨-, hcalls⟩, -, -⟩ := Segment.expandAll_simulates rule (R := @Recorded.Alike σ τ _ _) hgs
    (fun _ _ h => h.1)
    (fun _ _ n operand h => ⟨h.1.set n Iff.rfl, congrArg (· ++ [(n, operand)]) h.2⟩) hstart
  refine ⟨fun e => ?_, ?_, Segment.pieces rule (trace rule t s), ?_, ?_, ?_⟩
  · rw [result_expand_eq_error_iff, result_expand_eq_error_iff, herr,
      exists_ok_iff herr]
  · rw [assignments, assignments, store_expand_eq, store_expand_eq]
    exact hcalls
  · intro p hp
    obtain ⟨step, hstep, rfl⟩ := List.mem_map.mp hp
    have hg := Segment.mem_of_mem_trace hstep
    exact Segment.piece_isFrom rule _ (hgs _ hg) (Segment.source_infix_of_mem_scan hg)
  · intro text ht
    exact Segment.fill_expandAll (result_expand_eq_ok_iff.mp ht).1
  · intro text ht
    have hfill := Segment.fill_expandAll (result_expand_eq_ok_iff.mp ht).1
    rwa [← hp] at hfill

/-- A value that looks like a placeholder, an empty variable where the other store has none, and an
entry under a name that no variable has. -/
theorem values_are_inert_placeholder :
    let t : Text := "$A${B:=${A}}$B".toList
    let empty : Environment := VariableStore.set ∅ ['B'] []
    let s : Vars := VariableStore.set ∅ ['A'] "${B}".toList
    let s' : Layered := VariableStore.set ⟨∅, VariableStore.set empty ['9'] ['z'], true⟩ ['A'] ['x']
    SameSet s s' ∧
      (∀ e, (expand .keep t s).result = .error e ↔ (expand .keep t s').result = .error e) ∧
      assignments .keep t s = assignments .keep t s' ∧
      ∃ pieces : List Piece, (∀ p ∈ pieces, p.IsFrom t) ∧
        (∀ text, (expand .keep t s).result = .ok text →
          Piece.Fill pieces ((trace .keep t s).map Prod.snd) text) ∧
        ∀ text, (expand .keep t s').result = .ok text →
          Piece.Fill pieces ((trace .keep t s').map Prod.snd) text := by
  intro t empty s s'
  have h : SameSet (∅ : Vars) (⟨∅, VariableStore.set empty ['9'] ['z'], true⟩ : Layered) := by
    intro n hn
    have h9 : n ≠ ['9'] := by
      rintro rfl
      exact absurd hn (by decide)
    have he : get? (⟨∅, VariableStore.set empty ['9'] ['z'], true⟩ : Layered) n =
        if n = ['B'] then some [] else none := by
      change Layered.get? _ n = _
      rw [Layered.get?, Std.ExtTreeMap.getElem?_empty]
      change get? (VariableStore.set empty ['9'] ['z']) n = _
      rw [LawfulStore.get?_set empty ['9'] rfl hn, if_neg h9, LawfulStore.get?_set ∅ ['B'] rfl hn]
      simp [VariableStore.get?, Environment.read?, Environment.bytes?_eq,
        Name.not_mem_equals_of_isValid hn]
    have hv : value? (⟨∅, VariableStore.set empty ['9'] ['z'], true⟩ : Layered) n = none := by
      rw [value?_eq_none_iff, he]
      by_cases hb : n = ['B'] <;> simp [hb]
    rw [hv]
    simp [value?, VariableStore.get?]
  have hs : SameSet s s' := h.set ['A'] (by decide)
  exact ⟨hs, values_are_inert .keep t hs⟩

end EnvTemplate
