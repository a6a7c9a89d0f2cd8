import EnvTemplate.Name
import EnvTemplate.VariableStore

/-! What the stores have in common.  `LawfulStore` holds of all of them, also of the environment, which
refuses some values; it speaks of the names that a placeholder can have.  `MapStore` holds of those
that store every value under every name. -/
namespace EnvTemplate

open VariableStore

/-- A store in which a value that it accepts is read back under a variable name.  Assignments to
different variables do not depend on their order, and of two for one variable the later one stays. -/
class LawfulStore (σ : Type) [VariableStore σ] : Prop where
  get?_set (s : σ) (name : Text) {value m : Text} (hv : accepts s value = true)
    (hm : Name.isValid m = true) :
    get? (set s name value) m = if m = name then some value else get? s m
  set_refused (s : σ) (name : Text) {value : Text} (hv : accepts s value = false) :
    set s name value = s
  accepts_set (s : σ) (name value w : Text) : accepts (set s name value) w = accepts s w
  set_set (s : σ) (name value : Text) {w : Text} (hw : accepts s w = true) :
    set (set s name value) name w = set s name w
  set_comm (s : σ) {name m : Text} (h : name ≠ m) (value w : Text) :
    set (set s name value) m w = set (set s m w) name value

/-- A store that reads as a map: what is stored under a name is read back under it. -/
class MapStore (σ : Type) [VariableStore σ] : Prop where
  get?_set (s : σ) (name value m : Text) :
    get? (set s name value) m = if m = name then some value else get? s m

namespace Entries

variable {β : Type} (entries : Std.ExtTreeMap Text β)

theorem insert_insert (name : Text) (v w : β) :
    (entries.insert name v).insert name w = entries.insert name w := by
  ext m : 1
  simp only [Std.ExtTreeMap.getElem?_insert]
  split <;> rfl

theorem insert_comm {name m : Text} (h : name ≠ m) (v w : β) :
    (entries.insert name v).insert m w = (entries.insert m w).insert name v := by
  ext x : 1
  simp only [Std.ExtTreeMap.getElem?_insert, Std.LawfulEqCmp.compare_eq_iff_eq]
  by_cases hm : m = x
  · have hn : name ≠ x := hm ▸ h
    rw [if_pos hm, if_neg hn, if_pos hm]
  · rw [if_neg hm, if_neg hm]

end Entries

instance : MapStore Vars where
  get?_set := Vars.get?_set

instance : MapStore Layered where
  get?_set := Layered.get?_set

instance : LawfulStore Vars where
  get?_set s name _ _ _ _ := Vars.get?_set s name _ _
  set_refused _ _ _ hv := by cases hv
  accepts_set _ _ _ _ := rfl
  set_set s name value w _ := Entries.insert_insert s name value w
  set_comm s _ _ h value w := Entries.insert_comm s h value w

instance : LawfulStore Layered where
  get?_set s name _ _ _ _ := Layered.get?_set s name _ _
  set_refused _ _ _ hv := by cases hv
  accepts_set _ _ _ _ := rfl
  set_set s name value w _ :=
    congrArg (fun own => { s with own }) (Entries.insert_insert s.own name value w)
  set_comm s _ _ h value w :=
    congrArg (fun own => { s with own }) (Entries.insert_comm s.own h value w)

instance : LawfulStore Environment where
  get?_set s name _ _ hv hm := Environment.read?_write hv (Name.not_mem_equals_of_isValid hm)
  set_refused s name _ hv := Environment.write_refused hv s name
  accepts_set _ _ _ _ := rfl
  set_set s name value w hw := by
    cases hv : Environment.accepts value with
    | false => simp only [VariableStore.set, Environment.write_refused hv]
    | true =>
      have hw' : Environment.accepts w = true := hw
      simp only [VariableStore.set, Environment.write, hv, hw', if_true]
      exact Entries.insert_insert s name _ _
  set_comm s name m h value w := by
    cases hv : Environment.accepts value with
    | false => simp only [VariableStore.set, Environment.write_refused hv]
    | true =>
      cases hw : Environment.accepts w with
      | false => simp only [VariableStore.set, Environment.write_refused hw]
      | true =>
        simp only [VariableStore.set, Environment.write, hv, hw, if_true]
        exact Entries.insert_comm s h _ _

namespace VariableStore

variable {σ : Type} [VariableStore σ]

theorem value?_eq_some_iff {s : σ} {n v : Text} :
    value? s n = some v ↔ get? s n = some v ∧ v ≠ [] := by
  unfold value?
  split
  · next h => rw [h]; simp
  · next h =>
    constructor
    · intro hv
      refine ⟨hv, ?_⟩
      rintro rfl
      exact h hv
    · exact And.left

theorem value?_eq_none_iff {s : σ} {n : Text} :
    value? s n = none ↔ get? s n = none ∨ get? s n = some [] := by
  cases h : get? s n with
  | none => simp [value?, h]
  | some v => cases v <;> simp [value?, h]

end VariableStore

/-! ### Entries that are added one after another -/

def lastValue? (n : Text) (entries : List (Text × Text)) : Option Text :=
  entries.reverse.lookup n

theorem lastValue?_cons (n : Text) (e : Text × Text) (entries : List (Text × Text)) :
    lastValue? n (e :: entries) =
      (lastValue? n entries).or (if n = e.1 then some e.2 else none) := by
  obtain ⟨m, value⟩ := e
  rw [lastValue?, List.reverse_cons, List.lookup_append, lastValue?]
  by_cases h : n = m
  · simp [h]
  · have hb : (n == m) = false := by simpa using h
    simp [List.lookup_cons, h, hb]

theorem lastValue?_eq_some_iff {n value : Text} {entries : List (Text × Text)} :
    lastValue? n entries = some value ↔
      ∃ before after, entries = before ++ (n, value) :: after ∧ ∀ e ∈ after, e.1 ≠ n := by
  rw [lastValue?, List.lookup_eq_some_iff]
  constructor
  · rintro ⟨after, before, he, hafter⟩
    refine ⟨before.reverse, after.reverse, ?_, fun e hm => ?_⟩
    · rw [← entries.reverse_reverse, he]
      simp
    · have hne := hafter e (List.mem_reverse.mp hm)
      exact Ne.symm (bne_iff_ne.mp hne)
  · rintro ⟨before, after, rfl, hafter⟩
    refine ⟨after.reverse, before.reverse, by simp, fun e hm => ?_⟩
    exact bne_iff_ne.mpr (hafter e (List.mem_reverse.mp hm)).symm

theorem lastValue?_eq_none_iff {n : Text} {entries : List (Text × Text)} :
    lastValue? n entries = none ↔ ∀ e ∈ entries, e.1 ≠ n := by
  rw [lastValue?, List.lookup_eq_none_iff]
  constructor
  · intro h e hm
    exact Ne.symm (bne_iff_ne.mp (h e (List.mem_reverse.mpr hm)))
  · intro h e hm
    exact bne_iff_ne.mpr (h e (List.mem_reverse.mp hm)).symm

namespace Vars

theorem getElem?_addAll (vars : Vars) (entries : List (Text × Text)) (n : Text) :
    (vars.addAll entries)[n]? = (lastValue? n entries).or vars[n]? := by
  induction entries generalizing vars with
  | nil => rfl
  | cons e entries ih =>
    have hinsert : (vars.insert e.1 e.2)[n]? = (if n = e.1 then some e.2 else none).or vars[n]? := by
      by_cases h : n = e.1
      · simp [h]
      · simp [Std.ExtTreeMap.getElem?_insert, h, Ne.symm h]
    rw [lastValue?_cons, Option.or_assoc, ← hinsert]
    exact ih _

theorem lastValue?_toList (vars : Vars) (n : Text) : lastValue? n vars.toList = vars[n]? := by
  cases h : lastValue? n vars.toList with
  | some value =>
    obtain ⟨before, after, he, -⟩ := lastValue?_eq_some_iff.mp h
    have hm : (n, value) ∈ vars.toList := he ▸ List.mem_append_right before List.mem_cons_self
    exact (Std.ExtTreeMap.mem_toList_iff_getElem?_eq_some.mp hm).symm
  | none =>
    cases hv : vars[n]? with
    | none => rfl
    | some value =>
      have hm := Std.ExtTreeMap.mem_toList_iff_getElem?_eq_some.mpr hv
      exact absurd rfl (lastValue?_eq_none_iff.mp h _ hm)

theorem addAll_append (vars : Vars) (entries more : List (Text × Text)) :
    vars.addAll (entries ++ more) = (vars.addAll entries).addAll more :=
  List.foldl_append

end Vars

end EnvTemplate
