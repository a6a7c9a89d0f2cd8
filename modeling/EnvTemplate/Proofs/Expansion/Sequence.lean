import EnvTemplate.Inputs

/-! Expanding templates one after another.  Each sees the store that the one before it leaves, and an
error ends the sequence.  The inputs of a run are such a sequence, read from one tree. -/
namespace EnvTemplate

variable {σ : Type} [VariableStore σ]

def expandEach (rule : UnsetRule) : List Text → σ → Except ExpansionError (List Text) × σ
  | [], s => (.ok [], s)
  | t :: ts, s =>
    match (expand rule t s).result with
    | .error e => (.error e, (expand rule t s).store)
    | .ok text =>
      let r := expandEach rule ts (expand rule t s).store
      (r.1.map (text :: ·), r.2)

theorem expandEach_cons_of_error {rule : UnsetRule} {t : Text} {s : σ} {e : ExpansionError}
    (h : (expand rule t s).result = .error e) (ts : List Text) :
    expandEach rule (t :: ts) s = (.error e, (expand rule t s).store) := by
  simp only [expandEach, h]

theorem expandEach_cons_of_ok {rule : UnsetRule} {t text : Text} {s : σ}
    (h : (expand rule t s).result = .ok text) (ts : List Text) :
    expandEach rule (t :: ts) s =
      ((expandEach rule ts (expand rule t s).store).1.map (text :: ·),
        (expandEach rule ts (expand rule t s).store).2) := by
  simp only [expandEach, h]

theorem expandEach_singleton (rule : UnsetRule) (t : Text) (s : σ) :
    expandEach rule [t] s = ((expand rule t s).result.map ([·]), (expand rule t s).store) := by
  cases h : (expand rule t s).result with
  | error e => rw [expandEach_cons_of_error h, Except.map]
  | ok text => rw [expandEach_cons_of_ok h, Except.map, expandEach, Except.map]

theorem fst_expandEach_cons_eq_ok_iff {rule : UnsetRule} {t : Text} {ts texts : List Text} {s : σ} :
    (expandEach rule (t :: ts) s).1 = .ok texts ↔
      ∃ first more, (expand rule t s).result = .ok first ∧
        (expandEach rule ts (expand rule t s).store).1 = .ok more ∧ texts = first :: more := by
  cases h : (expand rule t s).result with
  | error e => simp [expandEach_cons_of_error h]
  | ok text =>
    rw [expandEach_cons_of_ok h]
    cases (expandEach rule ts (expand rule t s).store).1 <;> simp [Except.map, eq_comm]

theorem expandEach_append {rule : UnsetRule} {ts texts : List Text} {s s' : σ}
    (h : expandEach rule ts s = (.ok texts, s')) (us : List Text) :
    expandEach rule (ts ++ us) s =
      ((expandEach rule us s').1.map (texts ++ ·), (expandEach rule us s').2) := by
  induction ts generalizing s texts with
  | nil =>
    obtain ⟨htexts, rfl⟩ := Prod.mk.inj h
    obtain rfl := Except.ok.inj htexts
    cases hr : (expandEach rule us s).1 <;> simp [Except.map, ← hr]
  | cons t ts ih =>
    obtain ⟨text, rest, ht, hrest, rfl⟩ :=
      fst_expandEach_cons_eq_ok_iff.mp (congrArg Prod.fst h)
    rw [expandEach_cons_of_ok ht] at h
    have hs : (expandEach rule ts (expand rule t s).store).2 = s' := congrArg Prod.snd h
    rw [List.cons_append, expandEach_cons_of_ok ht, ih (Prod.ext hrest hs)]
    cases (expandEach rule us s').1 <;> rfl

namespace Inputs

/-- What inputs say when they are read from one tree.  Standard input is empty once it was read. -/
structure Reads (tree : FileTree) (stdin : Bytes) (inputs : List Path) (templates : List Text) :
    Prop where
  length : templates.length = inputs.length
  file {i : Nat} {p : Path} {text : Text} (hp : inputs[i]? = some p) (ht : templates[i]? = some text)
    (h : p ≠ standard) : tree.readText p = .ok text
  first {i : Nat} {text : Text} (hp : inputs[i]? = some standard) (ht : templates[i]? = some text)
    (h : standard ∉ inputs.take i) : Utf8.decode? stdin = some text
  again {i : Nat} {text : Text} (hp : inputs[i]? = some standard) (ht : templates[i]? = some text)
    (h : standard ∈ inputs.take i) : text = []

variable {tree : FileTree} {stdin : Bytes} {p : Path} {inputs : List Path} {text : Text}
  {templates : List Text}

theorem source_eq_ok_iff : source tree stdin p = .ok text ↔
    if p = standard then Utf8.decode? stdin = some text else tree.readText p = .ok text := by
  unfold source
  split
  · cases Utf8.decode? stdin <;> simp
  · cases tree.readText p <;> simp

theorem Reads.cons (h : source tree stdin p = .ok text)
    (hr : Reads tree (if p = standard then [] else stdin) inputs templates) :
    Reads tree stdin (p :: inputs) (text :: templates) := by
  rw [source_eq_ok_iff] at h
  refine ⟨by simp [hr.length], ?_, ?_, ?_⟩
  · rintro (_ | i) q u hp ht hq
    · obtain rfl : p = q := by simpa using hp
      obtain rfl : text = u := by simpa using ht
      rwa [if_neg hq] at h
    · exact hr.file (by simpa using hp) (by simpa using ht) hq
  · rintro (_ | i) u hp ht hm
    · obtain rfl : p = standard := by simpa using hp
      obtain rfl : text = u := by simpa using ht
      rwa [if_pos rfl] at h
    · obtain ⟨hne, hm⟩ : standard ≠ p ∧ standard ∉ inputs.take i := by simpa using hm
      rw [if_neg hne.symm] at hr
      exact hr.first (by simpa using hp) (by simpa using ht) hm
  · rintro (_ | i) u hp ht hm
    · simp at hm
    · have hp' : inputs[i]? = some standard := by simpa using hp
      have ht' : templates[i]? = some u := by simpa using ht
      by_cases hi : standard ∈ inputs.take i
      · exact hr.again hp' ht' hi
      · obtain rfl : standard = p := by simpa [hi] using hm
        have hempty := hr.first hp' ht' hi
        rw [if_pos rfl] at hempty
        simpa [Utf8.decode?] using hempty.symm

theorem Reads.of_cons (h : Reads tree stdin (p :: inputs) (text :: templates)) :
    source tree stdin p = .ok text ∧
      Reads tree (if p = standard then [] else stdin) inputs templates := by
  refine ⟨?_, by simpa using h.length, ?_, ?_, ?_⟩
  · rw [source_eq_ok_iff]
    split
    · next hp => exact h.first (i := 0) (by simp [hp]) (by simp) (by simp)
    · next hp => exact h.file (i := 0) (by simp) (by simp) hp
  · exact fun {i} q u hp ht hq => h.file (i := i + 1) (by simpa using hp) (by simpa using ht) hq
  · intro i u hp ht hm
    have hp' : (p :: inputs)[i + 1]? = some standard := by simpa using hp
    have ht' : (text :: templates)[i + 1]? = some u := by simpa using ht
    split
    · next hstd => simp [h.again hp' ht' (by simp [hstd]), Utf8.decode?]
    · next hstd => exact h.first hp' ht' (by simp [hm, Ne.symm hstd])
  · exact fun {i} u hp ht hm => h.again (i := i + 1) (by simpa using hp) (by simpa using ht)
      (by simp [hm])

theorem reads_cons_iff : Reads tree stdin (p :: inputs) (text :: templates) ↔
    source tree stdin p = .ok text ∧
      Reads tree (if p = standard then [] else stdin) inputs templates :=
  ⟨Reads.of_cons, fun h => .cons h.1 h.2⟩

theorem result_expandAll_cons_eq_ok_iff (rule : UnsetRule) (s : σ) :
    (expandAll rule tree (p :: inputs) stdin s).result = .ok text ↔
      ∃ template first more, source tree stdin p = .ok template ∧
        (EnvTemplate.expand rule template s).result = .ok first ∧
        (expandAll rule tree inputs (if p = standard then [] else stdin)
          (EnvTemplate.expand rule template s).store).result = .ok more ∧ text = first ++ more := by
  cases hs : source tree stdin p with
  | error f => simp [expandAll, hs]
  | ok template =>
    cases he : (EnvTemplate.expand rule template s).result with
    | error e => simp [expandAll, hs, he, Outcome.during, Outcome.andThen]
    | ok first =>
      simp only [expandAll, hs, he, Outcome.during, Outcome.andThen, mapError_ok]
      cases hm : (expandAll rule tree inputs (if p = standard then [] else stdin)
          (EnvTemplate.expand rule template s).store).result <;>
        simp [he, hm, Except.map, eq_comm]

/-- Inputs come to a text if all of them can be read and expanded in their order, and then it is all of
their texts. -/
theorem result_expandAll_eq_ok_iff (rule : UnsetRule) (s : σ) :
    (expandAll rule tree inputs stdin s).result = .ok text ↔
      ∃ templates texts, Reads tree stdin inputs templates ∧
        (expandEach rule templates s).1 = .ok texts ∧ text = texts.flatten := by
  induction inputs generalizing stdin s text with
  | nil =>
    constructor
    · intro h
      obtain rfl : [] = text := by simpa [expandAll] using h
      exact ⟨[], [], ⟨rfl, by simp, by simp, by simp⟩, rfl, rfl⟩
    · rintro ⟨templates, texts, hr, he, rfl⟩
      obtain rfl := List.eq_nil_of_length_eq_zero hr.length
      obtain rfl : [] = texts := Except.ok.inj he
      rfl
  | cons p inputs ih =>
    rw [result_expandAll_cons_eq_ok_iff]
    constructor
    · rintro ⟨template, first, more, hs, he, hmore, rfl⟩
      obtain ⟨templates, texts, hr, hts, rfl⟩ := (ih _).mp hmore
      refine ⟨template :: templates, first :: texts, .cons hs hr, ?_, rfl⟩
      exact fst_expandEach_cons_eq_ok_iff.mpr ⟨first, texts, he, hts, rfl⟩
    · rintro ⟨templates, _, hr, hts, rfl⟩
      obtain ⟨template, templates, rfl⟩ := List.exists_cons_of_length_eq_add_one hr.length
      obtain ⟨first, texts, he, hmore, rfl⟩ := fst_expandEach_cons_eq_ok_iff.mp hts
      obtain ⟨hs, hr⟩ := reads_cons_iff.mp hr
      exact ⟨template, first, _, hs, he, (ih _).mpr ⟨templates, texts, hr, hmore, rfl⟩, rfl⟩

end Inputs
end EnvTemplate
