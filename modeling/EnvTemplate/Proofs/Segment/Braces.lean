import EnvTemplate.Segment.Scan

/-! Braces in a text.  The search for the brace that closes a placeholder counts braces one by one;
here it is described by the numbers of braces in the beginnings of a text. -/
namespace EnvTemplate
namespace Text

/-- No beginning of a text closes more than `depth` braces that it has not opened. -/
def StaysWithin (depth : Nat) (a : Text) : Prop :=
  ∀ p, p <+: a → p.count '}' ≤ p.count '{' + depth

/-- A text whose braces match: no beginning closes more braces than it opens, and the whole text
closes as many as it opens. -/
structure Balanced (a : Text) : Prop where
  prefix_le : ∀ p, p <+: a → p.count '}' ≤ p.count '{'
  count_eq : a.count '}' = a.count '{'

/-- What a character at depth `d` does: it closes the whole, or it leads to a depth `e`. -/
theorem closes_or_leads (c : Char) (d : Nat) :
    (c = '}' ∧ d = 0) ∨ ∃ e, [c].count '{' + d = [c].count '}' + e := by
  by_cases ho : c = '{'
  · exact Or.inr ⟨d + 1, by simp [ho]; omega⟩
  · by_cases hc : c = '}'
    · cases d with
      | zero => exact Or.inl ⟨hc, rfl⟩
      | succ d => exact Or.inr ⟨d, by simp [hc]; omega⟩
    · exact Or.inr ⟨d, by simp [ho, hc]⟩

theorem count_cons_eq (x c : Char) (a : Text) : (c :: a).count x = [c].count x + a.count x := by
  rw [← List.count_append]
  rfl

@[simp] theorem staysWithin_nil (d : Nat) : StaysWithin d [] := by
  intro p hp
  simp [List.prefix_nil.mp hp]

@[simp] theorem not_staysWithin_close (a : Text) : ¬ StaysWithin 0 ('}' :: a) := by
  intro hs
  have h := hs ['}'] ⟨a, rfl⟩
  simp at h

theorem staysWithin_cons {d e : Nat} {c : Char} (h : [c].count '{' + d = [c].count '}' + e)
    (a : Text) : StaysWithin d (c :: a) ↔ StaysWithin e a := by
  constructor
  · intro hs p hp
    have hc := hs (c :: p) (List.cons_prefix_cons.mpr ⟨rfl, hp⟩)
    rw [count_cons_eq, count_cons_eq '{'] at hc
    omega
  · intro hs p hp
    rcases List.prefix_cons_iff.mp hp with rfl | ⟨q, rfl, hq⟩
    · simp
    · have hc := hs q hq
      rw [count_cons_eq, count_cons_eq '{']
      omega

theorem staysWithin_append {a : Text} (ho : '{' ∉ a) (hc : '}' ∉ a) (d : Nat) (b : Text) :
    StaysWithin d (a ++ b) ↔ StaysWithin d b := by
  induction a with
  | nil => rfl
  | cons c a ih =>
    simp only [List.mem_cons, not_or] at ho hc
    have h : [c].count '{' + d = [c].count '}' + d := by simp [Ne.symm ho.1, Ne.symm hc.1]
    rw [List.cons_append, staysWithin_cons h, ih ho.2 hc.2]

theorem balanced_iff {a : Text} :
    Balanced a ↔ StaysWithin 0 a ∧ a.count '}' = a.count '{' + 0 :=
  ⟨fun h => ⟨h.1, h.2⟩, fun h => ⟨h.1, h.2⟩⟩

theorem balanced_append_iff {a : Text} (ho : '{' ∉ a) (hc : '}' ∉ a) (b : Text) :
    Balanced (a ++ b) ↔ Balanced b := by
  have h1 := List.count_eq_zero.mpr ho
  have h2 := List.count_eq_zero.mpr hc
  rw [balanced_iff, balanced_iff, staysWithin_append ho hc, List.count_append, List.count_append,
    h1, h2, Nat.zero_add, Nat.zero_add]

theorem balanced_of_not_mem {a : Text} (ho : '{' ∉ a) (hc : '}' ∉ a) : Balanced a := by
  have h := balanced_append_iff ho hc []
  rw [List.append_nil] at h
  exact h.mpr (balanced_iff.mpr ⟨staysWithin_nil 0, rfl⟩)

end Text

namespace Segment

open Text

@[simp] theorem closing_close (t : Text) : closing 0 ('}' :: t) = some ([], t) := by
  simp [closing]

theorem closing_cons {d e : Nat} {c : Char} (h : [c].count '{' + d = [c].count '}' + e)
    (t : Text) : closing d (c :: t) = (closing e t).map fun (a, b) => (c :: a, b) := by
  by_cases hc : c = '}'
  · subst hc
    obtain rfl : d = e + 1 := by simp at h; omega
    simp [closing]
  · by_cases ho : c = '{'
    · subst ho
      obtain rfl : e = d + 1 := by simp at h; omega
      simp [closing]
    · obtain rfl : d = e := by simpa [hc, ho] using h
      simp [closing, hc, ho]

theorem count_of_closing {d : Nat} {t a b : Text} (h : closing d t = some (a, b)) :
    StaysWithin d a ∧ a.count '}' = a.count '{' + d := by
  induction t generalizing d a with
  | nil => simp [closing] at h
  | cons c t ih =>
    rcases closes_or_leads c d with ⟨rfl, rfl⟩ | ⟨e, he⟩
    · simp only [closing_close, Option.some.injEq, Prod.mk.injEq] at h
      obtain ⟨rfl, rfl⟩ := h
      simp
    · simp only [closing_cons he, Option.map_eq_some_iff, Prod.exists, Prod.mk.injEq] at h
      obtain ⟨a', b', h', rfl, rfl⟩ := h
      obtain ⟨hs, hn⟩ := ih h'
      refine ⟨(staysWithin_cons he a').mpr hs, ?_⟩
      rw [count_cons_eq, count_cons_eq '{']
      omega

theorem closing_append {d : Nat} {a : Text} (hs : StaysWithin d a)
    (hn : a.count '}' = a.count '{' + d) (b : Text) :
    closing d (a ++ '}' :: b) = some (a, b) := by
  induction a generalizing d with
  | nil =>
    obtain rfl : d = 0 := by simpa using hn.symm
    simp
  | cons c a ih =>
    rcases closes_or_leads c d with ⟨rfl, rfl⟩ | ⟨e, he⟩
    · exact absurd hs (not_staysWithin_close a)
    · rw [count_cons_eq, count_cons_eq '{'] at hn
      have h := ih ((staysWithin_cons he a).mp hs) (by omega)
      rw [List.cons_append, closing_cons he, h]
      rfl

theorem closing_eq_some_iff {t a b : Text} :
    closing 0 t = some (a, b) ↔ t = a ++ '}' :: b ∧ Balanced a := by
  constructor
  · intro h
    exact ⟨closing_eq_some h, balanced_iff.mpr (count_of_closing h)⟩
  · rintro ⟨rfl, ha⟩
    obtain ⟨hs, hn⟩ := balanced_iff.mp ha
    exact closing_append hs hn b

theorem closing_eq_none_iff {d : Nat} {t : Text} : closing d t = none ↔ StaysWithin d t := by
  induction t generalizing d with
  | nil => simp [closing]
  | cons c t ih =>
    rcases closes_or_leads c d with ⟨rfl, rfl⟩ | ⟨e, he⟩
    · simp
    · simp [closing_cons he, staysWithin_cons he, ih]

end Segment
end EnvTemplate
