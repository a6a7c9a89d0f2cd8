import EnvTemplate.Proofs.Expansion.Trace

/-! The two rules for unset variables side by side.  They lead to the same stores and the same errors.
What is kept under one rule and lacking under the other are the plain placeholders of variables that are
not set when they are reached, each as it stands in the template. -/
namespace EnvTemplate

open VariableStore

variable {σ : Type} [VariableStore σ]

namespace Segment

def isUnset (s : σ) : Segment → Bool
  | plain name _ => (value? s name).isNone
  | _ => false

end Segment

/-- What a segment comes to where unset placeholders are kept. -/
structure Part (σ : Type) where
  segment : Segment
  store : σ
  text : Text

namespace Part

def isUnset (p : Part σ) : Bool := p.segment.isUnset p.store

/-- Parts make up one output, and another one when those of unset variables are dropped.  There is a part
for each step of the expansion, and those that are dropped are spelled as in the template. -/
structure Make (steps : List (Segment × σ)) (parts : List (Part σ)) (kept dropped : Text) : Prop where
  steps : parts.map (fun p => (p.segment, p.store)) = steps
  kept : parts.flatMap Part.text = kept
  dropped : (parts.filter fun p => !p.isUnset).flatMap Part.text = dropped
  text : ∀ p ∈ parts, (Segment.expand .keep p.store p.segment).result = .ok p.text
  source : ∀ p ∈ parts, p.isUnset = true → p.text = p.segment.source

theorem Make.cons {steps : List (Segment × σ)} {parts : List (Part σ)} {kept dropped : Text}
    (h : Make steps parts kept dropped) {p : Part σ}
    (ht : (Segment.expand .keep p.store p.segment).result = .ok p.text)
    (hp : p.isUnset = true → p.text = p.segment.source) :
    Make ((p.segment, p.store) :: steps) (p :: parts) (p.text ++ kept)
      ((if p.isUnset then [] else p.text) ++ dropped) where
  steps := congrArg ((p.segment, p.store) :: ·) h.steps
  kept := congrArg (p.text ++ ·) h.kept
  dropped := by
    cases hu : p.isUnset <;> simp [hu, ← h.dropped]
  text := by
    intro q hq
    rcases List.mem_cons.mp hq with rfl | hq
    · exact ht
    · exact h.text q hq
  source := by
    intro q hq
    rcases List.mem_cons.mp hq with rfl | hq
    · exact hp
    · exact h.source q hq

end Part

namespace Segment

/-- What the rules make of one segment: the same store, and either the same error or a text that one rule
drops if it is the source of an unset placeholder. -/
theorem expand_rules (s : σ) (g : Segment) :
    (expand .empty s g).store = (expand .keep s g).store ∧
      ((∃ e, (expand .empty s g).result = .error e ∧ (expand .keep s g).result = .error e) ∨
        ∃ text, (expand .keep s g).result = .ok text ∧
          (expand .empty s g).result = .ok (if g.isUnset s then [] else text) ∧
          (g.isUnset s = true → text = g.source)) := by
  cases g with
  | literal text => exact ⟨rfl, .inr ⟨text, rfl, rfl, fun _ => rfl⟩⟩
  | plain name raw =>
    cases hv : value? s name with
    | some v => exact ⟨by simp [expand, hv], .inr ⟨v, by simp [expand, hv, isUnset]⟩⟩
    | none => exact ⟨by simp [expand, hv], .inr ⟨raw, by simp [expand, hv, isUnset, source]⟩⟩
  | braced name op operand =>
    have h : expand .empty s (braced name op operand) = expand .keep s (braced name op operand) := rfl
    rw [h]
    cases hr : (expand .keep s (braced name op operand)).result with
    | error e => exact ⟨rfl, .inl ⟨e, rfl, rfl⟩⟩
    | ok text => exact ⟨rfl, .inr ⟨text, rfl, rfl, by simp [isUnset]⟩⟩

/-- The rules lead segments that follow each other to the same stores, and to the same error or to two
outputs of the same parts. -/
theorem expandAll_rules (gs : List Segment) (s : σ) :
    (expandAll .empty gs s).store = (expandAll .keep gs s).store ∧
      trace .empty gs s = trace .keep gs s ∧
      ((∃ e, (expandAll .empty gs s).result = .error e ∧ (expandAll .keep gs s).result = .error e) ∨
        ∃ parts kept dropped, (expandAll .keep gs s).result = .ok kept ∧
          (expandAll .empty gs s).result = .ok dropped ∧ parts.map Part.segment = gs ∧
          Part.Make (trace .keep gs s) parts kept dropped) := by
  induction gs generalizing s with
  | nil => exact ⟨rfl, rfl, .inr ⟨[], [], [], rfl, rfl, rfl, ⟨rfl, rfl, rfl, nofun, nofun⟩⟩⟩
  | cons g gs ih =>
    obtain ⟨hstore, ⟨e, he, hk⟩ | ⟨text, hk, he, hsource⟩⟩ := expand_rules s g
    · rw [trace_cons_of_error he, trace_cons_of_error hk, expandAll_cons_of_error he,
        expandAll_cons_of_error hk]
      exact ⟨hstore, rfl, .inl ⟨e, he, hk⟩⟩
    · obtain ⟨hs, hr⟩ := expandAll_cons_of_ok he gs
      obtain ⟨hs', hr'⟩ := expandAll_cons_of_ok hk gs
      obtain ⟨ihs, iht, ihr⟩ := ih (expand .keep s g).store
      rw [trace_cons_of_ok he, trace_cons_of_ok hk, hs, hs', hr, hr', hstore, iht]
      refine ⟨ihs, rfl, ?_⟩
      rcases ihr with ⟨e, he', hk'⟩ | ⟨parts, kept, dropped, hk', he', hseg, hmake⟩
      · exact .inl ⟨e, by rw [he']; rfl, by rw [hk']; rfl⟩
      · refine .inr ⟨⟨g, s, text⟩ :: parts, _, _, by rw [hk']; rfl, by rw [he']; rfl,
          congrArg (g :: ·) hseg, hmake.cons (p := ⟨g, s, text⟩) hk hsource⟩

theorem expandAll_keep_of_unset {gs : List Segment} {s : σ}
    (hop : ∀ name op operand, braced name op operand ∉ gs)
    (hunset : ∀ name raw, plain name raw ∈ gs → value? s name = none) :
    (expandAll .keep gs s).result = .ok (sources gs) := by
  induction gs with
  | nil => rfl
  | cons g gs ih =>
    have hg : (expand .keep s g).store = s ∧ (expand .keep s g).result = .ok g.source := by
      cases g with
      | literal text => exact ⟨rfl, rfl⟩
      | plain name raw => simp [expand, hunset name raw List.mem_cons_self, source]
      | braced name op operand => exact absurd List.mem_cons_self (hop name op operand)
    rw [(expandAll_cons_of_ok hg.2 gs).2, hg.1,
      ih (fun name op operand hm => hop name op operand (List.mem_cons_of_mem g hm))
        fun name raw hm => hunset name raw (List.mem_cons_of_mem g hm)]
    rfl

end Segment

/-- The rules for unset variables lead to the same store and to the same error or to none.  Where there is
no error the two outputs have the same parts, one for each segment, and one of them lacks just those of
plain placeholders whose variables were not set when they were reached.  So a template without operators
all of whose variables are unset is kept as it is. -/
theorem unset_rules_differ_by_unset_placeholders (t : Text) (s : σ) :
    (expand .empty t s).store = (expand .keep t s).store ∧
      trace .empty t s = trace .keep t s ∧
      ((∃ e, (expand .empty t s).result = .error e ∧ (expand .keep t s).result = .error e) ∨
        ∃ parts kept dropped, (expand .keep t s).result = .ok kept ∧
          (expand .empty t s).result = .ok dropped ∧ parts.map Part.segment = (scan t).segments ∧
          Part.Make (trace .keep t s) parts kept dropped) ∧
      ((scan t).unclosed = none → (∀ name op operand, .braced name op operand ∉ (scan t).segments) →
        (∀ name raw, .plain name raw ∈ (scan t).segments → value? s name = none) →
        (expand .keep t s).result = .ok t) := by
  obtain ⟨hs, ht, hr⟩ := Segment.expandAll_rules (scan t).segments s
  refine ⟨by rw [store_expand_eq, store_expand_eq, hs], ht, ?_, fun hclosed hop hunset => ?_⟩
  · rcases hr with ⟨e, he, hk⟩ | ⟨parts, kept, dropped, hk, he, hparts⟩
    · exact .inl ⟨e, result_expand_eq_error_iff.mpr (.inl he), result_expand_eq_error_iff.mpr (.inl hk)⟩
    · cases hu : (scan t).unclosed with
      | none =>
        exact .inr ⟨parts, kept, dropped, result_expand_eq_ok_iff.mpr ⟨hk, hu⟩,
          result_expand_eq_ok_iff.mpr ⟨he, hu⟩, hparts⟩
      | some u =>
        exact .inl ⟨.unclosed u, result_expand_eq_error_iff.mpr (.inr ⟨⟨_, he⟩, u, hu, rfl⟩),
          result_expand_eq_error_iff.mpr (.inr ⟨⟨_, hk⟩, u, hu, rfl⟩)⟩
  · have hk := Segment.expandAll_keep_of_unset hop hunset
    rw [sources_scan hclosed] at hk
    exact result_expand_eq_ok_iff.mpr ⟨hk, hclosed⟩

theorem unset_rules_differ_by_unset_placeholders_kept :
    let t : Text := "é$A $\x7bB\x7d$$\x7b1\x7d".toList
    let s : Vars := VariableStore.set ∅ ['B'] []
    (scan t).unclosed = none ∧ (∀ name op operand, .braced name op operand ∉ (scan t).segments) ∧
      (∀ name raw, .plain name raw ∈ (scan t).segments → value? s name = none) ∧
      (expand .keep t s).result = .ok t := by
  intro t s
  have hscan : scan t = ⟨[.literal ['é'], .plain ['A'] ['$', 'A'], .literal [' '],
      .plain ['B'] "$\x7bB\x7d".toList, .literal ['$'], .literal "$\x7b1\x7d".toList], none⟩ := by
    decide +kernel
  have hop : ∀ name op operand, .braced name op operand ∉ (scan t).segments := by
    intro name op operand
    simp [hscan]
  have hunset : ∀ name raw, .plain name raw ∈ (scan t).segments → value? s name = none := by
    intro name raw hm
    have hname : name = ['A'] ∨ name = ['B'] := by
      simp only [hscan, List.mem_cons, Segment.plain.injEq, reduceCtorEq, List.not_mem_nil, false_or,
        or_false] at hm
      exact hm.imp And.left And.left
    rcases hname with rfl | rfl <;> decide +kernel
  have hclosed : (scan t).unclosed = none := by rw [hscan]
  obtain ⟨-, -, -, hkeep⟩ := unset_rules_differ_by_unset_placeholders t s
  exact ⟨hclosed, hop, hunset, hkeep hclosed hop hunset⟩

end EnvTemplate
