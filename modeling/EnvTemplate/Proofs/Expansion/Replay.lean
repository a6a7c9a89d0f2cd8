import Mathlib.Data.List.Basic
import EnvTemplate.Proofs.Expansion.Trace

/-! What the journal of an expansion tells.  It consists of the notes of the segments that are reached, one
behind the other, and a segment notes three things: that it is left as it stands, that it assigns, and that
the store refuses what it assigns.  So the assignments can be made again from the journal. -/
namespace EnvTemplate

open VariableStore

variable {σ : Type} [VariableStore σ]

def Event.redo (s : σ) : Event → σ
  | assigning name value => set s name value
  | _ => s

def replay (s : σ) (journal : Journal) : σ := journal.foldl Event.redo s

theorem replay_append (s : σ) (a b : Journal) : replay s (a ++ b) = replay (replay s a) b :=
  List.foldl_append

def Event.kept? : Event → Option Text
  | keptLiteral name => some name
  | _ => none

/-- A refusal stands directly behind the assignment of each value that is refused, and nowhere else. -/
structure Warned (refuses : Text → Prop) (journal : Journal) : Prop where
  first : ∀ n, journal[0]? ≠ some (.refused n)
  next : ∀ i n, journal[i + 1]? = some (.refused n) ↔
    ∃ value, journal[i]? = some (.assigning n value) ∧ refuses value

namespace Warned

variable {refuses : Text → Prop} {a b : Journal}

theorem nil : Warned refuses [] := ⟨by simp, by simp⟩

theorem kept (name : Text) : Warned refuses [.keptLiteral name] := by
  refine ⟨by simp, fun i n => ?_⟩
  cases i <;> simp

theorem accepted {value : Text} (h : ¬refuses value) (name : Text) :
    Warned refuses [.assigning name value] := by
  refine ⟨by simp, fun i n => ?_⟩
  cases i <;> simp [h]

theorem refused {value : Text} (h : refuses value) (name : Text) :
    Warned refuses [.assigning name value, .refused name] := by
  refine ⟨by simp, fun i n => ?_⟩
  rcases i with _ | _ | i
  · constructor
    · intro he
      obtain rfl : name = n := by simpa using he
      exact ⟨value, rfl, h⟩
    · rintro ⟨w, he, -⟩
      simp at he
      simp [he.1]
  · simp
  · simp

/-- A journal does not end between an assignment and its refusal, so another one may follow. -/
theorem append (ha : Warned refuses a) (hb : Warned refuses b) : Warned refuses (a ++ b) := by
  constructor
  · intro n
    cases a with
    | nil => exact hb.first n
    | cons e a => exact ha.first n
  · intro i n
    rcases Nat.lt_trichotomy (i + 1) a.length with hi | hi | hi
    · rw [List.getElem?_append_left hi, List.getElem?_append_left (Nat.lt_of_succ_lt hi)]
      exact ha.next i n
    · have hlast : a[i + 1]? ≠ some (.refused n) := by
        rw [List.getElem?_eq_none (Nat.le_of_eq hi.symm)]
        exact nofun
      rw [List.getElem?_append_right (Nat.le_of_eq hi.symm), hi, Nat.sub_self,
        List.getElem?_append_left (by omega), ← ha.next i n]
      exact iff_of_false (hb.first n) hlast
    · have hle : a.length ≤ i := Nat.le_of_lt_succ hi
      rw [List.getElem?_append_right (Nat.le_of_lt hi), List.getElem?_append_right hle,
        Nat.sub_add_comm hle]
      exact hb.next (i - a.length) n

theorem flatMap {α : Type} {f : α → Journal} (h : ∀ x, Warned refuses (f x)) (xs : List α) :
    Warned refuses (xs.flatMap f) := by
  induction xs with
  | nil => exact .nil
  | cons x xs ih =>
    rw [List.flatMap_cons]
    exact (h x).append ih

end Warned

namespace Segment

/-- The variable of a plain placeholder that is left as it stands, because the rule is to keep it and the
variable is not set. -/
def kept? (rule : UnsetRule) (s : σ) : Segment → Option Text
  | plain name _ => if rule = .keep ∧ value? s name = none then some name else none
  | _ => none

theorem replay_expand (rule : UnsetRule) (s : σ) (g : Segment) :
    replay s (expand rule s g).journal = (expand rule s g).store := by
  generalize expand rule s g = a, expands rule s g = h
  cases h with
  | @assigned name operand =>
    show replay (set s name operand) (notes s name operand) = set s name operand
    rw [notes]
    split <;> rfl
  | _ => rfl

theorem warned_expand {refuses : Text → Prop}
    (hr : ∀ (s : σ) value, accepts s value = false ↔ refuses value) (rule : UnsetRule) (s : σ)
    (g : Segment) : Warned refuses (expand rule s g).journal := by
  generalize expand rule s g = a, expands rule s g = h
  cases h with
  | plainKept => exact .kept _
  | @assigned name operand =>
    show Warned refuses (.assigning name operand :: notes s name operand)
    cases ha : accepts s operand with
    | true =>
      rw [notes, if_pos ha]
      exact .accepted (by simp [← hr s, ha]) name
    | false =>
      rw [notes, if_neg (by simp [ha])]
      exact .refused ((hr s operand).mp ha) name
  | _ => exact .nil

theorem kept_expand (rule : UnsetRule) (s : σ) (g : Segment) :
    (expand rule s g).journal.filterMap Event.kept? = (g.kept? rule s).toList := by
  generalize expand rule s g = a, expands rule s g = h
  cases h with
  | plainSet hv => simp [kept?, hv]
  | plainEmpty hv hr => simp [kept?, hr]
  | plainKept hv hr => simp [kept?, Event.kept?, hv, hr]
  | @assigned name operand =>
    show (notes s name operand).filterMap Event.kept? = []
    rw [notes]
    split <;> rfl
  | _ => rfl

theorem result_of_kept? {rule : UnsetRule} {s : σ} {g : Segment} {n : Text}
    (h : g.kept? rule s = some n) : (expand rule s g).result = .ok g.source := by
  cases g with
  | plain name raw =>
    simp only [kept?, Option.ite_none_right_eq_some] at h
    obtain ⟨⟨rfl, hv⟩, -⟩ := h
    simp [expand, hv, source]
  | _ => cases h

theorem journal_expandAll (rule : UnsetRule) (gs : List Segment) (s : σ) :
    (expandAll rule gs s).journal =
      (trace rule gs s).flatMap fun step => (expand rule step.2 step.1).journal := by
  induction gs generalizing s with
  | nil => rfl
  | cons g gs ih =>
    cases hr : (expand rule s g).result with
    | error e =>
      rw [expandAll_cons_of_error hr, trace_cons_of_error hr, List.flatMap_singleton]
    | ok text =>
      have hj : (expandAll rule (g :: gs) s).journal =
          (expand rule s g).journal ++ (expandAll rule gs (expand rule s g).store).journal := by
        rw [expandAll, Outcome.andThen, hr]
      rw [hj, trace_cons_of_ok hr, List.flatMap_cons, ih]

theorem replay_trace (rule : UnsetRule) (gs : List Segment) (s : σ) :
    replay s ((trace rule gs s).flatMap fun step => (expand rule step.2 step.1).journal) =
      (expandAll rule gs s).store := by
  induction gs generalizing s with
  | nil => rfl
  | cons g gs ih =>
    have hstep := replay_expand rule s g
    cases hr : (expand rule s g).result with
    | error e =>
      rw [expandAll_cons_of_error hr, trace_cons_of_error hr, List.flatMap_singleton]
      exact hstep
    | ok text =>
      rw [(expandAll_cons_of_ok hr gs).1, trace_cons_of_ok hr, List.flatMap_cons, replay_append, hstep]
      exact ih _

theorem texts_of_expandAll {rule : UnsetRule} {gs : List Segment} {s : σ} {text : Text}
    (h : (expandAll rule gs s).result = .ok text) :
    ∃ texts : List Text, texts.flatten = text ∧
      (trace rule gs s).map (fun step => (expand rule step.2 step.1).result) = texts.map .ok := by
  induction gs generalizing s text with
  | nil =>
    obtain rfl : [] = text := Except.ok.inj h
    exact ⟨[], rfl, rfl⟩
  | cons g gs ih =>
    obtain ⟨u, v, hu, hv, rfl⟩ := Outcome.andThen_eq_ok_iff.mp h
    obtain ⟨texts, rfl, htexts⟩ := ih hv
    refine ⟨u :: texts, rfl, ?_⟩
    rw [trace_cons_of_ok hu, List.map_cons, hu, htexts, List.map_cons]

end Segment

theorem journal_expand_eq (rule : UnsetRule) (t : Text) (s : σ) :
    (expand rule t s).journal =
      (trace rule t s).flatMap fun step => (Segment.expand rule step.2 step.1).journal := by
  rw [trace, ← Segment.journal_expandAll, expand_eq_scan, Scan.expand]
  generalize Segment.expandAll rule (scan t).segments s = a
  rcases a with ⟨e | text, s', j⟩
  · rfl
  · cases (scan t).unclosed <;> exact List.append_nil j

/-- All that happens in an expansion can be read off its journal. -/
structure Tells (refuses : Text → Prop) (rule : UnsetRule) (t : Text) (s : σ) : Prop where
  replay : replay s (expand rule t s).journal = (expand rule t s).store
  warned : Warned refuses (expand rule t s).journal
  /-- The placeholders that were left as they stand are noted, each when it is reached. -/
  kept : (expand rule t s).journal.filterMap Event.kept? =
    (trace rule t s).filterMap fun step => step.1.kept? rule step.2
  none_kept : rule = .empty → ∀ n, .keptLiteral n ∉ (expand rule t s).journal
  /-- What a placeholder that is left comes to is its source. -/
  source : ∀ step ∈ trace rule t s, ∀ n, step.1.kept? rule step.2 = some n →
    (Segment.expand rule step.2 step.1).result = .ok step.1.source
  texts : ∀ text, (expand rule t s).result = .ok text → ∃ texts : List Text, texts.flatten = text ∧
    (trace rule t s).map (fun step => (Segment.expand rule step.2 step.1).result) = texts.map .ok

theorem tells {refuses : Text → Prop} (hr : ∀ (s : σ) value, accepts s value = false ↔ refuses value)
    (rule : UnsetRule) (t : Text) (s : σ) : Tells refuses rule t s := by
  have hj := journal_expand_eq rule t s
  have hkept : (expand rule t s).journal.filterMap Event.kept? =
      (trace rule t s).filterMap fun step => step.1.kept? rule step.2 := by
    rw [hj, List.filterMap_flatMap, List.filterMap_eq_flatMap_toList]
    simp only [Segment.kept_expand]
  refine ⟨?_, ?_, hkept, ?_, fun step _ n => Segment.result_of_kept?, fun text h => ?_⟩
  · rw [hj, store_expand_eq]
    exact Segment.replay_trace rule (scan t).segments s
  · rw [hj]
    exact .flatMap (fun _ => Segment.warned_expand hr rule _ _) _
  · rintro rfl n hm
    have hn : n ∈ (expand .empty t s).journal.filterMap Event.kept? :=
      List.mem_filterMap.mpr ⟨_, hm, rfl⟩
    rw [hkept] at hn
    obtain ⟨⟨g, s'⟩, -, hg⟩ := List.mem_filterMap.mp hn
    cases g <;> simp [Segment.kept?] at hg
  · exact Segment.texts_of_expandAll (result_expand_eq_ok_iff.mp h).1

/-- The journal of an expansion, whether it succeeds or fails, tells all that happens.  A map takes every
value, and so does a map over an environment; the environment refuses those with a NUL. -/
theorem journal_tells_expansion (rule : UnsetRule) (t : Text) :
    (∀ s : Vars, Tells (fun _ => False) rule t s) ∧
      (∀ s : Layered, Tells (fun _ => False) rule t s) ∧
        ∀ s : Environment, Tells (fun value => '\x00' ∈ value) rule t s := by
  refine ⟨tells (fun s value => ?_) rule t, tells (fun s value => ?_) rule t,
    tells (fun s value => ?_) rule t⟩
  · exact iff_of_false nofun id
  · exact iff_of_false nofun id
  · show Environment.accepts value = false ↔ '\x00' ∈ value
    simp [Environment.accepts]

/-- A value that is refused, the variable that stays unset thereby, and an empty assignment that is made
twice. -/
example : (expand .keep "$\x7bA:=\x00\x7d$A$\x7bB:=\x7d$\x7bB:=\x7d".toList (∅ : Environment)).journal =
    [.assigning ['A'] ['\x00'], .refused ['A'], .keptLiteral ['A'], .assigning ['B'] [],
      .assigning ['B'] []] := by
  decide +kernel

end EnvTemplate
