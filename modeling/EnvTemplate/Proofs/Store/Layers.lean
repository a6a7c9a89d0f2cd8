import Mathlib.Data.List.Forall2
import EnvTemplate.Proofs.Expansion.View
import EnvTemplate.Proofs.Store.Laws

/-! A map laid over an environment is one flat map to whoever uses it: the entries of the environment
that are text, and over them those of the map.  Whatever is asked of the two gets the same answer, and
the environment stays as it is.  Only the search of an environment for a name with an equals sign in it
finds what no entry has. -/
namespace EnvTemplate

open VariableStore

def Environment.texts (env : Environment) : Vars :=
  env.filterMap fun _ value => Utf8.decode? value

theorem Environment.getElem?_texts (env : Environment) (n : Text) :
    env.texts[n]? = (env[n]?).bind Utf8.decode? := by
  rw [texts, Std.ExtTreeMap.getElem?_filterMap]
  cases env[n]? <;> rfl

theorem Environment.read?_eq_texts {n : Text} (h : '=' ∉ n) (env : Environment) :
    env.read? n = env.texts[n]? := by
  rw [getElem?_texts, read?, bytes?_eq h]

namespace Layered

/-- The map that a layered one amounts to. -/
def flat (s : Layered) : Vars := (if s.inherits then s.env.texts else ∅) ∪ s.own

theorem getElem?_flat (s : Layered) (n : Text) :
    s.flat[n]? = (s.own[n]?).or (if s.inherits then s.env.texts[n]? else none) := by
  rw [flat, Std.ExtTreeMap.getElem?_union]
  cases s.inherits <;> simp

theorem get?_eq_flat (s : Layered) {n : Text} (h : s.inherits = true → '=' ∉ n) :
    s.get? n = s.flat[n]? := by
  rw [getElem?_flat, get?]
  cases hi : s.inherits with
  | false => cases s.own[n]? <;> rfl
  | true =>
    rw [Environment.read?_eq_texts (h hi)]
    cases s.own[n]? <;> rfl

theorem flat_insert (s : Layered) (n value : Text) :
    flat { s with own := s.own.insert n value } = s.flat.insert n value := by
  ext m : 1
  simp only [getElem?_flat, Std.ExtTreeMap.getElem?_insert]
  split <;> rfl

theorem flat_addAll (s : Layered) (entries : List (Text × Text)) :
    (s.addAll entries).flat = s.flat.addAll entries := by
  induction entries generalizing s with
  | nil => rfl
  | cons e entries ih => exact (ih _).trans (congrArg (·.addAll entries) (flat_insert s e.1 e.2))

theorem isView_flat : IsView flat where
  get? s _ hn := (s.get?_eq_flat fun _ => Name.not_mem_equals_of_isValid hn).symm
  set := flat_insert

theorem env_expand (rule : UnsetRule) (t : Text) (s : Layered) :
    (expand rule t s).store.env = s.env := by
  rw [store_expand_eq]
  exact Segment.expandAll_invariant rule (P := fun u : Layered => u.env = s.env)
    (fun _ hg => Segment.isNamed_of_mem_scan hg) (fun _ _ _ _ _ h => h) rfl

end Layered

/-! ### Requests -/

/-- What can be asked of a store. -/
inductive Request
  | get (name : Text)
  | set (name value : Text)
  | extend (entries : List (Text × Text))
  | expand (rule : UnsetRule) (template : Text)

inductive Answer
  | done
  | value (value : Option Text)
  | expansion (result : Except ExpansionError Text)

structure Reply (σ : Type) where
  request : Request
  answer : Answer
  store : σ

namespace Request

/-- A request that does not look up a name with an equals sign in it. -/
def IsPlain : Request → Prop
  | get name => '=' ∉ name
  | _ => True

variable {σ : Type} [VariableStore σ]

def reply (addAll : σ → List (Text × Text) → σ) (s : σ) : Request → Reply σ
  | get name => ⟨get name, .value (get? s name), s⟩
  | set name value => ⟨set name value, .done, VariableStore.set s name value⟩
  | extend entries => ⟨extend entries, .done, addAll s entries⟩
  | expand rule template =>
    let r := EnvTemplate.expand rule template s
    ⟨expand rule template, .expansion r.result, r.store⟩

def replies (addAll : σ → List (Text × Text) → σ) : List Request → σ → List (Reply σ)
  | [], _ => []
  | q :: qs, s => q.reply addAll s :: replies addAll qs (q.reply addAll s).store

structure Agrees (start : Layered) (a : Reply Layered) (b : Reply Vars) : Prop where
  request : a.request = b.request
  answer : (start.inherits = true → a.request.IsPlain) → a.answer = b.answer
  env : a.store.env = start.env

theorem flat_reply (q : Request) (s : Layered) :
    (q.reply Layered.addAll s).store.flat = (q.reply Vars.addAll s.flat).store := by
  cases q with
  | get name => rfl
  | set name value => exact Layered.isView_flat.set s name value
  | extend entries => exact s.flat_addAll entries
  | expand rule t => exact (Layered.isView_flat.expand rule t s).2.symm

theorem agrees_reply (q : Request) (s : Layered) :
    Agrees s (q.reply Layered.addAll s) (q.reply Vars.addAll s.flat) := by
  cases q with
  | get name => exact ⟨rfl, fun h => congrArg Answer.value (s.get?_eq_flat h), rfl⟩
  | set name value => exact ⟨rfl, fun _ => rfl, rfl⟩
  | extend entries => exact ⟨rfl, fun _ => rfl, rfl⟩
  | expand rule t =>
    have hr := (Layered.isView_flat.expand rule t s).1
    exact ⟨rfl, fun _ => congrArg Answer.expansion hr.symm, s.env_expand rule t⟩

theorem inherits_reply (q : Request) (s : Layered) :
    (q.reply Layered.addAll s).store.inherits = s.inherits := by
  cases q with
  | expand rule t =>
    simp only [reply, store_expand_eq]
    exact Segment.expandAll_invariant rule (P := fun u : Layered => u.inherits = s.inherits)
      (fun _ hg => Segment.isNamed_of_mem_scan hg) (fun _ _ _ _ _ h => h) rfl
  | _ => rfl

/-- A layered map answers as the flat map that it amounts to, and its environment stays as it is. -/
theorem layered_answers_flat (qs : List Request) (s : Layered) :
    List.Forall₂ (Agrees s) (replies Layered.addAll qs s) (replies Vars.addAll qs s.flat) := by
  induction qs generalizing s with
  | nil => exact .nil
  | cons q qs ih =>
    have hstep := agrees_reply q s
    refine .cons hstep ?_
    rw [← flat_reply]
    refine (ih _).imp fun a b hab => ⟨hab.request, ?_, hab.env.trans hstep.env⟩
    rw [← inherits_reply q s]
    exact hab.answer

/-- The rest of a value is found under a name that goes on with its beginning, though no entry has that
name. -/
theorem layered_finds_rest :
    let env : Environment := (∅ : Environment).insert ['A'] (Utf8.encode "B=C".toList)
    let s : Layered := ⟨∅, env, true⟩
    (replies Layered.addAll [get "A=B".toList] s).map Reply.answer ≠
      (replies Vars.addAll [get "A=B".toList] s.flat).map Reply.answer := by
  intro env s h
  have hs : s.get? "A=B".toList = some ['C'] := by decide +kernel
  have hf : s.flat["A=B".toList]? = none := by decide +kernel
  have hv : s.get? "A=B".toList = s.flat["A=B".toList]? := Answer.value.inj (List.cons.inj h).1
  rw [hs, hf] at hv
  cases hv

end Request
end EnvTemplate
