import EnvTemplate.Proofs.Expansion.Inertness
import EnvTemplate.Proofs.Store.Layers

/-! Expanding against the environment of the process.  It is as good as a map of the entries that are
text, one that passes over values with a NUL.  Each change of the environment is a call to the system,
which aborts on some names and values; an expansion makes no such call, and the entries that it does not
name in one stay as they are, text or not. -/
namespace EnvTemplate

open VariableStore

/-- A map that passes over values with a NUL. -/
structure NulFree where
  vars : Vars

instance : VariableStore NulFree where
  get? m name := m.vars[name]?
  set m name value := if '\x00' ∈ value then m else ⟨m.vars.insert name value⟩
  accepts _ value := !value.contains '\x00'

namespace Environment

theorem accepts_eq_true_iff {value : Text} : accepts value = true ↔ '\x00' ∉ value := by
  simp [accepts]

theorem texts_insert (env : Environment) (name value : Text) :
    texts (env.insert name (Utf8.encode value)) = env.texts.insert name value := by
  ext m : 1
  rw [getElem?_texts, Std.ExtTreeMap.getElem?_insert, Std.ExtTreeMap.getElem?_insert, getElem?_texts]
  split
  · exact Utf8.decode?_encode value
  · rfl

theorem isView_texts : IsView fun env : Environment => NulFree.mk env.texts where
  get? env _ hn := (env.read?_eq_texts (Name.not_mem_equals_of_isValid hn)).symm
  set env name value := by
    by_cases h : '\x00' ∈ value
    · have ha : accepts value = false := by simpa [accepts] using h
      simp only [VariableStore.set, write_refused ha, if_pos h]
    · simp only [VariableStore.set, write, if_pos (accepts_eq_true_iff.mpr h), if_neg h, texts_insert]

structure IsExportable (name value : Text) : Prop where
  name_ne_nil : name ≠ []
  equals_notMem : '=' ∉ name
  nul_notMem_name : '\x00' ∉ name
  nul_notMem_value : '\x00' ∉ value

instance (name value : Text) : Decidable (IsExportable name value) :=
  decidable_of_iff (name ≠ [] ∧ '=' ∉ name ∧ '\x00' ∉ name ∧ '\x00' ∉ value)
    ⟨fun ⟨h₁, h₂, h₃, h₄⟩ => ⟨h₁, h₂, h₃, h₄⟩, fun ⟨h₁, h₂, h₃, h₄⟩ => ⟨h₁, h₂, h₃, h₄⟩⟩

/-- Calls the system to change a variable.  The process aborts if the system does not take the name or
the value. -/
def export? (env : Environment) (call : Text × Text) : Option Environment :=
  if IsExportable call.1 call.2 then some (env.insert call.1 (Utf8.encode call.2)) else none

theorem IsExportable.export? {name value : Text} (h : IsExportable name value) (env : Environment) :
    env.export? (name, value) = some (env.insert name (Utf8.encode value)) :=
  if_pos h

theorem isExportable_of_isValid {name value : Text} (hn : Name.isValid name = true)
    (hv : accepts value = true) : IsExportable name value where
  name_ne_nil := by
    rintro rfl
    cases hn
  equals_notMem := Name.not_mem_equals_of_isValid hn
  nul_notMem_name := fun h => absurd (Name.isPart_of_isValid hn h) (by decide)
  nul_notMem_value := accepts_eq_true_iff.mp hv

theorem getElem?_exports {calls : List (Text × Text)} {env env' : Environment}
    (h : calls.foldlM export? env = some env') {n : Text} (hn : n ∉ calls.map Prod.fst) :
    env'[n]? = env[n]? := by
  induction calls generalizing env with
  | nil =>
    cases h
    rfl
  | cons call calls ih =>
    obtain ⟨hc, hn⟩ := not_or.mp (mt List.mem_cons.mpr hn)
    obtain ⟨env₁, h₁, h⟩ := Option.bind_eq_some_iff.mp h
    rw [ih h hn]
    unfold export? at h₁
    split at h₁
    · cases h₁
      rw [Std.ExtTreeMap.getElem?_insert, if_neg]
      simpa using Ne.symm hc
    · cases h₁

end Environment

/-- The assignments that become calls to the system: those of values without a NUL. -/
def Environment.calls (assignments : List (Text × Text)) : List (Text × Text) :=
  assignments.filter fun call => accepts call.2

def exports (rule : UnsetRule) (t : Text) (env : Environment) : List (Text × Text) :=
  Environment.calls (assignments rule t env)

namespace Recorded

/-- The calls so far did not abort, and they made the environment what it is. -/
def Exported (env : Environment) (s : Recorded Environment) : Prop :=
  (Environment.calls s.calls).foldlM Environment.export? env = some s.base

theorem Exported.set {env : Environment} {s : Recorded Environment} (h : Exported env s)
    {n operand : Text} (hn : Name.isValid n = true) :
    Exported env (VariableStore.set s n operand) := by
  show (Environment.calls (s.calls ++ [(n, operand)])).foldlM Environment.export? env =
    some (s.base.write n operand)
  rw [Environment.calls, List.filter_append, List.foldlM_append]
  rw [Exported, Environment.calls] at h
  cases hv : Environment.accepts operand with
  | false => simp [h, hv, Environment.write_refused hv]
  | true =>
    have he := (Environment.isExportable_of_isValid hn hv).export? s.base
    simp [h, hv, he, Environment.write]

end Recorded

/-- None of the calls aborts, and what they make of the environment is what the expansion leaves. -/
theorem foldlM_exports (rule : UnsetRule) (t : Text) (env : Environment) :
    (exports rule t env).foldlM Environment.export? env = some (expand rule t env).store := by
  have hrun : (expand rule t (⟨env, []⟩ : Recorded Environment)).store.Exported env := by
    rw [store_expand_eq]
    exact Segment.expandAll_invariant rule (fun _ hg => Segment.isNamed_of_mem_scan hg)
      (fun _ _ _ hn _ h => h.set hn) rfl
  rw [← (Recorded.expand_base rule t ⟨env, []⟩).1]
  exact hrun

/-- An expansion against the environment, beside one against a map. -/
structure ExportsSafely (rule : UnsetRule) (t : Text) (env : Environment) (m : NulFree) : Prop where
  result : (expand rule t env).result = (expand rule t m).result
  reads : ∀ n, Name.isValid n = true →
    get? (expand rule t env).store n = get? (expand rule t m).store n
  /-- No call to the system aborts. -/
  exports : (exports rule t env).foldlM Environment.export? env = some (expand rule t env).store
  /-- The entries under all other names stay, byte for byte. -/
  others : ∀ n, n ∉ (EnvTemplate.exports rule t env).map Prod.fst →
    (expand rule t env).store[n]? = env[n]?

/-- An expansion against the environment agrees with one against a map of the entries that are text,
and it calls the system only with what the system takes. -/
theorem environment_expansion_safe (rule : UnsetRule) (t : Text) (env : Environment) :
    ExportsSafely rule t env ⟨env.texts⟩ := by
  obtain ⟨hr, hs⟩ := Environment.isView_texts.expand rule t env
  have hcalls := foldlM_exports rule t env
  refine ⟨hr.symm, fun n hn => ?_, hcalls, fun n hn => Environment.getElem?_exports hcalls hn⟩
  rw [hs]
  exact (Environment.isView_texts.get? _ hn).symm

/-- A value with a NUL is not exported; one that is no text counts as unset and is replaced. -/
example :
    exports .empty "$\x7bA:=x\x00y\x7d$\x7bB:=z\x7d".toList ((∅ : Environment).insert ['B'] [0xff]) =
      [(['B'], ['z'])] := by
  decide +kernel

end EnvTemplate
