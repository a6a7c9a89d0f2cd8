import Mathlib.Tactic.TFAE
import EnvTemplate.Assignment
import EnvTemplate.Proofs.Expansion.Trace

/-! The forms in which a name stands: behind a `$`, in braces, in braces before an operator, and before the
`=` of an assignment.  All of them take the same names. -/
namespace EnvTemplate

open Segment Text

namespace Segment

theorem WellFormed.scan_source {g : Segment} (h : WellFormed g) : scan g.source = ⟨[g], none⟩ := by
  have hc : Canonical [g] := .cons h (by simp) .nil
  have hs := scan_sources hc
  rwa [sources_cons, sources_nil, List.append_nil] at hs

theorem isValid_of_scan {t n : Text} {g : Segment} {u : Option UnclosedBrace}
    (h : scan t = ⟨[g], u⟩) (hn : g.name? = some n) : Name.isValid n = true := by
  have hm : g ∈ (scan t).segments := by rw [h]; exact List.mem_singleton_self g
  exact isNamed_of_mem_scan hm n hn

theorem balanced_nil : Balanced [] := balanced_of_not_mem (by simp) (by simp)

end Segment

namespace Assignment

theorem parse_eq_ok_iff {s n v : Text} :
    parse s = .ok (n, v) ↔ s = n ++ '=' :: v ∧ Name.isValid n = true := by
  constructor
  · intro h
    unfold parse at h
    cases hs : s.splitAt? '=' with
    | none => rw [hs] at h; cases h
    | some r =>
      obtain ⟨m, w⟩ := r
      rw [hs] at h
      by_cases hm : Name.isValid m = true
      · simp only [hm, if_true, Except.ok.injEq, Prod.mk.injEq] at h
        obtain ⟨rfl, rfl⟩ := h
        exact ⟨(splitAt?_eq_some hs).1, hm⟩
      · simp [hm] at h
  · rintro ⟨rfl, hn⟩
    rw [parse, splitAt?_append_cons (Name.not_mem_equals_of_isValid hn)]
    simp only [hn, if_true]

end Assignment

/-- What is a name does not depend on the form that it stands in, and an assignment has one for its
variable. -/
theorem name_forms_agree (n : Text) :
    List.TFAE [
      Name.isValid n = true,
      ∃ raw, scan ('$' :: n) = ⟨[plain n raw], none⟩,
      ∃ raw, scan (inBraces n) = ⟨[plain n raw], none⟩,
      ∀ (op : Operator) (w : Text), Balanced w →
        scan (inBraces (n ++ op.token ++ w)) = ⟨[braced n op w], none⟩,
      ∀ v, Assignment.parse (n ++ '=' :: v) = .ok (n, v)] ∧
    ∀ s v, Assignment.parse s = .ok (n, v) ↔ s = n ++ '=' :: v ∧ Name.isValid n = true := by
  refine ⟨?_, fun s v => Assignment.parse_eq_ok_iff⟩
  tfae_have 1 → 2 := fun hn => ⟨'$' :: n, (WellFormed.bare hn).scan_source⟩
  tfae_have 2 → 1 := fun ⟨raw, h⟩ => isValid_of_scan h rfl
  tfae_have 1 → 3 := fun hn => ⟨inBraces n, (WellFormed.plain hn).scan_source⟩
  tfae_have 3 → 1 := fun ⟨raw, h⟩ => isValid_of_scan h rfl
  tfae_have 1 → 4 := fun hn op w hw => (WellFormed.braced op hn hw).scan_source
  tfae_have 4 → 1 := fun h => isValid_of_scan (h .fallback [] balanced_nil) rfl
  tfae_have 1 → 5 := fun hn v => Assignment.parse_eq_ok_iff.mpr ⟨rfl, hn⟩
  tfae_have 5 → 1 := fun h => (Assignment.parse_eq_ok_iff.mp (h [])).2
  tfae_finish

theorem name_forms_agree_longest :
    let n : Text := List.replicate Name.maxLength 'N'
    let w : Text := "$\x7bA:-\x7d:+=".toList
    Name.isValid n = true ∧ Balanced w ∧
      scan (inBraces (n ++ Operator.assign.token ++ w)) = ⟨[braced n .assign w], none⟩ ∧
      ¬∃ raw, scan ('$' :: 'N' :: n) = ⟨[plain ('N' :: n) raw], none⟩ := by
  intro n w
  have hn : Name.isValid n = true := by decide
  have hlong : Name.isValid ('N' :: n) ≠ true := by decide
  have hw : Balanced w := (closing_eq_some_iff.mp (by decide : closing 0 (w ++ ['}']) = some (w, []))).2
  have hforms : ∀ (op : Operator) (w : Text), Balanced w →
      scan (inBraces (n ++ op.token ++ w)) = ⟨[braced n op w], none⟩ :=
    ((name_forms_agree n).1.out 0 3).mp hn
  refine ⟨hn, hw, hforms .assign w hw, fun h => hlong ?_⟩
  exact ((name_forms_agree ('N' :: n)).1.out 1 0).mp h

end EnvTemplate
