import EnvTemplate.Proofs.Expansion.Trace
import EnvTemplate.Proofs.Store.Laws

/-! What becomes of a variable while templates are expanded one after another on one store.  The
assignments that are reached act on each variable for itself: the first operand that is not empty
stays, and a variable that nothing is assigned to keeps its value, or stays absent. -/
namespace EnvTemplate

open VariableStore

/-- What an assignment makes of a variable: a value stays, an unset variable is given the operand. -/
def assigned : Option Text → Text → Option Text
  | some (c :: v), _ => some (c :: v)
  | _, operand => some operand

theorem foldl_assigned_of_value {v : Text} (hv : v ≠ []) (operands : List Text) :
    operands.foldl assigned (some v) = some v := by
  obtain ⟨c, v, rfl⟩ := List.exists_cons_of_ne_nil hv
  induction operands with
  | nil => rfl
  | cons w operands ih => exact ih

theorem foldl_assigned_of_unset {v : Option Text} (hv : v = none ∨ v = some [])
    {operands : List Text} (h : operands ≠ []) :
    operands.foldl assigned v = some ((operands.find? (· ≠ [])).getD []) := by
  induction operands generalizing v with
  | nil => exact absurd rfl h
  | cons w operands ih =>
    have hw : assigned v w = some w := by rcases hv with rfl | rfl <;> rfl
    rw [List.foldl_cons, hw]
    by_cases hwn : w = []
    · subst hwn
      cases operands with
      | nil => rfl
      | cons u operands =>
        have hf : List.find? (fun w : Text => decide (w ≠ [])) ([] :: u :: operands) =
            (u :: operands).find? (· ≠ []) := List.find?_cons_of_neg (by simp)
        rw [ih (Or.inr rfl) (List.cons_ne_nil u operands), hf]
    · rw [foldl_assigned_of_value hwn, List.find?_cons_of_pos (by simpa using hwn)]
      rfl

namespace Segment

def operand? (n : Text) : Segment → Option Text
  | braced m .assign operand => if m = n then some operand else none
  | _ => none

variable {σ : Type}

/-- The operands of the assignments to a variable that are reached, in their order. -/
def operands (n : Text) (steps : List (Segment × σ)) : List Text :=
  steps.filterMap fun step => step.1.operand? n

theorem operands_cons (n : Text) (g : Segment) (s : σ) (steps : List (Segment × σ)) :
    operands n ((g, s) :: steps) = (g.operand? n).toList ++ operands n steps := by
  rw [operands, List.filterMap_cons]
  cases g.operand? n <;> rfl

theorem operands_append (n : Text) (steps more : List (Segment × σ)) :
    operands n (steps ++ more) = operands n steps ++ operands n more :=
  List.filterMap_append

variable [VariableStore σ] [MapStore σ]

theorem get?_expand (rule : UnsetRule) (s : σ) (g : Segment) (n : Text) :
    get? (expand rule s g).store n = (g.operand? n).toList.foldl assigned (get? s n) := by
  generalize expand rule s g = a, expands rule s g = h
  cases h with
  | @bracedSet m operand v op hm =>
    obtain ⟨hv, hne⟩ := value?_eq_some_iff.mp hm
    by_cases h : m = n
    · rw [← h, hv, foldl_assigned_of_value hne]
    · cases op <;> simp [operand?, h]
  | @assigned m operand hm =>
    rw [MapStore.get?_set]
    by_cases h : n = m
    · subst h
      rcases value?_eq_none_iff.mp hm with hn | hn <;> simp [operand?, hn, EnvTemplate.assigned]
    · simp [operand?, h, Ne.symm h]
  | _ => rfl

theorem get?_expandAll (rule : UnsetRule) (gs : List Segment) (s : σ) (n : Text) :
    get? (expandAll rule gs s).store n =
      (operands n (trace rule gs s)).foldl EnvTemplate.assigned (get? s n) := by
  induction gs generalizing s with
  | nil => rfl
  | cons g gs ih =>
    have hstep := get?_expand rule s g n
    cases hr : (expand rule s g).result with
    | error e =>
      rw [expandAll_cons_of_error hr, trace_cons_of_error hr, hstep, operands_cons, List.foldl_append]
      rfl
    | ok text =>
      rw [(expandAll_cons_of_ok hr gs).1, trace_cons_of_ok hr, ih, hstep, operands_cons,
        List.foldl_append]

end Segment

/-- A template that is to be expanded, and what becomes of its unset variables. -/
abbrev Call := UnsetRule × Text

namespace Session

variable {σ : Type} [VariableStore σ]

/-- The store after templates were expanded one after another, some of which may have failed. -/
def run : List Call → σ → σ
  | [], s => s
  | (rule, t) :: calls, s => run calls (expand rule t s).store

def steps : List Call → σ → List (Segment × σ)
  | [], _ => []
  | (rule, t) :: calls, s => trace rule t s ++ steps calls (expand rule t s).store

/-- The stores that there are in the course of the expansions, the last one included. -/
def stores (calls : List Call) (s : σ) : List σ := (steps calls s).map Prod.snd ++ [run calls s]

/-- A later store has all the values of an earlier one. -/
def Keeps (a b : σ) : Prop := ∀ n v, value? a n = some v → value? b n = some v

theorem Keeps.refl (s : σ) : Keeps s s := fun _ _ => id

theorem Keeps.trans {a b c : σ} (h : Keeps a b) (h' : Keeps b c) : Keeps a c :=
  fun n v hv => h' n v (h n v hv)

variable [MapStore σ]

theorem keeps_expand (rule : UnsetRule) (s : σ) (g : Segment) :
    Keeps s (Segment.expand rule s g).store := by
  intro n v hv
  obtain ⟨hg, hne⟩ := value?_eq_some_iff.mp hv
  rw [value?_eq_some_iff, Segment.get?_expand, hg, foldl_assigned_of_value hne]
  exact ⟨rfl, hne⟩

theorem pairwise_keeps_append (rule : UnsetRule) (gs : List Segment) (s : σ) {later : List σ}
    (hl : later.Pairwise Keeps) (hs : ∀ b ∈ later, Keeps (Segment.expandAll rule gs s).store b) :
    ((Segment.trace rule gs s).map Prod.snd ++ later).Pairwise Keeps ∧
      ∀ b ∈ (Segment.trace rule gs s).map Prod.snd ++ later, Keeps s b := by
  induction gs generalizing s with
  | nil => exact ⟨hl, hs⟩
  | cons g gs ih =>
    have hstep := keeps_expand rule s g
    cases hr : (Segment.expand rule s g).result with
    | error e =>
      rw [Segment.expandAll_cons_of_error hr] at hs
      have hlater : ∀ b ∈ later, Keeps s b := fun b hb => hstep.trans (hs b hb)
      rw [Segment.trace_cons_of_error hr]
      refine ⟨List.pairwise_cons.mpr ⟨hlater, hl⟩, fun b hb => ?_⟩
      rcases List.mem_cons.mp hb with rfl | hb
      · exact .refl _
      · exact hlater b hb
    | ok text =>
      rw [(Segment.expandAll_cons_of_ok hr gs).1] at hs
      obtain ⟨hp, hk⟩ := ih (Segment.expand rule s g).store hs
      rw [Segment.trace_cons_of_ok hr]
      refine ⟨List.pairwise_cons.mpr ⟨fun b hb => hstep.trans (hk b hb), hp⟩, fun b hb => ?_⟩
      rcases List.mem_cons.mp hb with rfl | hb
      · exact .refl _
      · exact hstep.trans (hk b hb)

theorem pairwise_keeps (calls : List Call) (s : σ) :
    (stores calls s).Pairwise Keeps ∧ ∀ b ∈ stores calls s, Keeps s b := by
  induction calls generalizing s with
  | nil => simp [stores, steps, run, Keeps.refl]
  | cons call calls ih =>
    obtain ⟨rule, t⟩ := call
    obtain ⟨hp, hk⟩ := ih (expand rule t s).store
    have h := pairwise_keeps_append rule (scan t).segments s hp (store_expand_eq rule t s ▸ hk)
    rw [stores, steps, List.map_append, List.append_assoc]
    exact h

/-- The history of a variable: it is what the assignments that are reached make of it. -/
theorem get?_run (calls : List Call) (s : σ) (n : Text) :
    get? (run calls s) n = (Segment.operands n (steps calls s)).foldl assigned (get? s n) := by
  induction calls generalizing s with
  | nil => rfl
  | cons call calls ih =>
    obtain ⟨rule, t⟩ := call
    have ht : get? (expand rule t s).store n =
        (Segment.operands n (trace rule t s)).foldl assigned (get? s n) := by
      rw [store_expand_eq]
      exact Segment.get?_expandAll rule (scan t).segments s n
    rw [run, ih, ht, steps, Segment.operands_append, List.foldl_append]

/-- The first operand that is not empty wins, and nothing else is touched. -/
structure FirstWins (calls : List Call) (s : σ) : Prop where
  keeps : (stores calls s).Pairwise Keeps
  /-- A variable that was not set gets the first operand that is not empty. -/
  first : ∀ n, value? s n = none → Segment.operands n (steps calls s) ≠ [] →
    get? (run calls s) n = some (((Segment.operands n (steps calls s)).find? (· ≠ [])).getD [])
  /-- All other variables stay as they were, also absent or empty ones. -/
  others : ∀ n, (value? s n).isSome ∨ Segment.operands n (steps calls s) = [] →
    get? (run calls s) n = get? s n

theorem firstWins (calls : List Call) (s : σ) : FirstWins calls s := by
  refine ⟨(pairwise_keeps calls s).1, fun n hn ho => ?_, fun n hn => ?_⟩
  · rw [get?_run]
    exact foldl_assigned_of_unset (value?_eq_none_iff.mp hn) ho
  · rw [get?_run]
    rcases hn with hn | hn
    · obtain ⟨v, hv⟩ := Option.isSome_iff_exists.mp hn
      obtain ⟨hg, hne⟩ := value?_eq_some_iff.mp hv
      rw [hg, foldl_assigned_of_value hne]
    · rw [hn]
      rfl

/-- Templates expanded one after another on a map, or on a map over an environment: the first
assignment of a value wins, and nothing else is touched. -/
theorem first_assignment_wins (calls : List Call) :
    (∀ s : Vars, FirstWins calls s) ∧ ∀ s : Layered, FirstWins calls s :=
  ⟨firstWins calls, firstWins calls⟩

end Session
end EnvTemplate
