import Mathlib.Data.Nat.Find
import Mathlib.Order.Monotone.Basic
import EnvTemplate.Proofs.Segment.Bytewise
import EnvTemplate.Proofs.Segment.Lossless

/-! Calling a cursor again and again.  It stands between two characters of its template, it goes on with every
segment and never back, and once it has ended or failed it says nothing more. -/
namespace EnvTemplate

open Segment Text

namespace Cursor

/-- A cursor stands in a template: what is left is what comes behind its position. -/
def StandsIn (s : Cursor) (t : Text) : Prop := ∃ a, t = a ++ s.rest ∧ a.byteSize = s.pos

def position (s : Cursor) : Bytewise.Position := ⟨s.pos, s.failed⟩

theorem StandsIn.pos_le {s : Cursor} {t : Text} (h : s.StandsIn t) : s.pos ≤ t.byteSize := by
  obtain ⟨a, rfl, ha⟩ := h
  rw [byteSize_append, ha]
  exact Nat.le_add_right _ _

theorem standsIn_start (t : Text) : (start t).StandsIn t := ⟨[], rfl, rfl⟩

inductive Call (s : Cursor) : Bytewise.Answer → Cursor → Prop
  | ended (h : s.failed = true ∨ s.rest = []) : Call s none s
  | unclosed (hs : s.failed = false) (h : s.rest ≠ []) (hr : read s.rest = none) :
      Call s (some (.error ⟨s.pos⟩)) { s with failed := true }
  | segment {g : Segment} {rest : Text} (hs : s.failed = false) (h : Begins s.rest g rest) :
      Call s (some (.ok g)) { s with rest, pos := s.pos + g.source.byteSize }

theorem call_next (s : Cursor) : Call s s.next.1 s.next.2 := by
  obtain ⟨rest, pos, failed⟩ := s
  cases failed with
  | true => exact .ended (.inl rfl)
  | false =>
    cases rest with
    | nil => exact .ended (.inr rfl)
    | cons c t =>
      have hne : c :: t ≠ [] := List.cons_ne_nil c t
      rw [next]
      cases h : read (c :: t) with
      | none => exact .unclosed rfl hne h
      | some r => exact .segment rfl ((read_eq_some_iff hne).mp h)

variable {s s' : Cursor} {reply : Bytewise.Answer} {t : Text}

theorem Call.standsIn (h : Call s reply s') (hs : s.StandsIn t) : s'.StandsIn t := by
  cases h with
  | ended => exact hs
  | unclosed => exact hs
  | @segment g rest _ hb =>
    obtain ⟨a, rfl, ha⟩ := hs
    refine ⟨a ++ g.source, ?_, by rw [byteSize_append, ha]⟩
    rw [List.append_assoc, hb.source_append]

theorem Call.pos_le (h : Call s reply s') : s.pos ≤ s'.pos := by
  cases h with
  | ended => exact Nat.le_refl _
  | unclosed => exact Nat.le_refl _
  | segment => exact Nat.le_add_right _ _

theorem Call.pos_lt {g : Segment} (h : Call s (some (.ok g)) s') : s.pos < s'.pos := by
  cases h with
  | segment _ hb => exact Nat.lt_add_of_pos_right (byteSize_pos hb.source_ne_nil)

theorem Call.next_eq (h : Call s reply s') (ha : ∀ g, reply ≠ some (.ok g)) : s'.next = (none, s') := by
  cases h with
  | ended h => rcases h with h | h <;> simp [next, h]
  | unclosed => simp [next]
  | segment => exact absurd rfl (ha _)

/-- The reader by bytes makes no misstep where a cursor stands, and answers what the cursor answers. -/
theorem StandsIn.next_eq (h : s.StandsIn t) :
    Bytewise.next t s.position = .ok (s.next.1, s.next.2.position) := by
  obtain ⟨a, rfl, ha⟩ := h
  obtain ⟨rest, pos, failed⟩ := s
  obtain rfl : a.byteSize = pos := ha
  cases failed with
  | true => rfl
  | false =>
    by_cases hrest : rest = []
    · subst hrest
      rw [Bytewise.next, if_pos (by simp [position])]
      rfl
    · obtain ⟨p, r, rfl, hp, hr⟩ := exists_text rest
      by_cases hnil : p = []
      · subst hnil
        obtain ⟨c, u, rfl⟩ := List.exists_cons_of_ne_nil (show r ≠ [] from hrest)
        obtain rfl := hr c rfl
        show Bytewise.next (a ++ '$' :: u) ⟨a.byteSize, false⟩ = _
        rw [Bytewise.next_of_sigil, List.nil_append]
        simp only [next, List.isEmpty_cons, Bool.or_false, Bool.false_eq_true, if_false]
        cases read ('$' :: u) <;> rfl
      · have hread := (Begins.text hnil hp hr).read_eq
        have hempty : (p ++ r).isEmpty = false := by simp [hnil]
        show Bytewise.next (a ++ (p ++ r)) ⟨a.byteSize, false⟩ = _
        rw [Bytewise.next_of_text a hnil hp hr]
        simp only [next, hempty, Bool.or_false, Bool.false_eq_true, if_false, hread]
        rfl

/-! ### Calls one after another -/

def after (t : Text) : Nat → Cursor
  | 0 => start t
  | n + 1 => (after t n).next.2

/-- What a call answers; the first one is call 0. -/
def answer (t : Text) (n : Nat) : Bytewise.Answer := (after t n).next.1

theorem call_after (t : Text) (n : Nat) : Call (after t n) (answer t n) (after t (n + 1)) :=
  call_next (after t n)

theorem standsIn_after (t : Text) (n : Nat) : (after t n).StandsIn t := by
  induction n with
  | zero => exact standsIn_start t
  | succ n ih => exact (call_after t n).standsIn ih

theorem monotone_pos_after (t : Text) : Monotone fun n => (after t n).pos :=
  monotone_nat_of_le_succ fun n => (call_after t n).pos_le

theorem calls_eq (t : Text) (n : Nat) :
    Bytewise.calls t n = .ok ((List.range n).map (answer t), (after t n).position) := by
  induction n with
  | zero => rfl
  | succ n ih =>
    rw [Bytewise.calls, ih, Checked.ok_bind]
    show (Bytewise.next t (after t n).position >>= _) = _
    rw [(standsIn_after t n).next_eq, Checked.ok_bind, List.range_succ, List.map_append]
    rfl

theorem answer_eq_none {n m : Nat} (hn : ∀ g, answer t n ≠ some (.ok g)) (h : n < m) :
    answer t m = none := by
  have hstop : (after t (n + 1)).next = (none, after t (n + 1)) := (call_after t n).next_eq hn
  have hstay : ∀ k, after t (n + 1 + k) = after t (n + 1) := by
    intro k
    induction k with
    | zero => rfl
    | succ k ih =>
      show (after t (n + 1 + k)).next.2 = _
      rw [ih, hstop]
  obtain ⟨k, rfl⟩ := Nat.exists_eq_add_of_le h
  rw [answer, hstay k, hstop]

theorem le_pos_after {n : Nat} (h : ∀ k < n, ∃ g, answer t k = some (.ok g)) : n ≤ (after t n).pos := by
  induction n with
  | zero => exact Nat.zero_le _
  | succ n ih =>
    have hn := ih fun k hk => h k (Nat.lt_succ_of_lt hk)
    obtain ⟨g, hg⟩ := h n (Nat.lt_succ_self n)
    have hcall := call_after t n
    rw [hg] at hcall
    exact Nat.lt_of_le_of_lt hn hcall.pos_lt

/-- The calls that answer with a segment are the first ones, and they are as many as there are bytes at
most. -/
theorem exists_calls (t : Text) :
    ∃ n ≤ t.byteSize, ∀ m, (∃ g, answer t m = some (.ok g)) ↔ m < n := by
  classical
  have hle : ∀ n, (∀ k < n, ∃ g, answer t k = some (.ok g)) → n ≤ t.byteSize := fun n h =>
    Nat.le_trans (le_pos_after h) (standsIn_after t n).pos_le
  have hend : ∃ n, ¬∃ g, answer t n = some (.ok g) := by
    apply Classical.byContradiction
    intro hall
    have hlong := hle (t.byteSize + 1) fun k _ => Classical.not_not.mp fun hk => hall ⟨k, hk⟩
    exact Nat.not_succ_le_self _ hlong
  have hfirst : ∀ k < Nat.find hend, ∃ g, answer t k = some (.ok g) := fun k hk =>
    Classical.not_not.mp (Nat.find_min hend hk)
  refine ⟨Nat.find hend, hle _ hfirst, fun m => ⟨?_, hfirst m⟩⟩
  rintro ⟨g, hg⟩
  apply Nat.lt_of_not_le
  intro hm
  rcases Nat.lt_or_eq_of_le hm with hlt | he
  · have hnone := answer_eq_none (fun g hg => Nat.find_spec hend ⟨g, hg⟩) hlt
    rw [hg] at hnone
    cases hnone
  · exact Nat.find_spec hend (he ▸ ⟨g, hg⟩)

/-- However often a template is asked for its next segment, the reader by bytes makes no misstep and answers
what the cursor answers.  The cursor does not go back, stays in the template, and goes on with every segment;
once it has answered with no segment it answers with nothing, and that is so after as many segments as there
are bytes at the latest. -/
theorem calls_advance_and_end (t : Text) :
    (∀ n, Bytewise.calls t n = .ok ((List.range n).map (answer t), (after t n).position)) ∧
      (Monotone fun n => (after t n).pos) ∧
      (∀ n, (after t n).pos ≤ t.byteSize) ∧
      (∀ n g, answer t n = some (.ok g) → (after t n).pos < (after t (n + 1)).pos) ∧
      (∀ n m, (∀ g, answer t n ≠ some (.ok g)) → n < m → answer t m = none) ∧
      ∃ n ≤ t.byteSize, ∀ m, (∃ g, answer t m = some (.ok g)) ↔ m < n := by
  refine ⟨calls_eq t, monotone_pos_after t, fun n => (standsIn_after t n).pos_le, fun n g hg => ?_,
    fun n m => answer_eq_none, exists_calls t⟩
  have hcall := call_after t n
  rw [hg] at hcall
  exact hcall.pos_lt

theorem calls_advance_and_end_unclosed :
    let t : Text := "é$\x7bA:=\x7b€\x7d\x7d$Bé$\x7b\x7b\x7d".toList
    answer t 4 = some (.error ⟨17⟩) ∧ (after t 1).pos < (after t 2).pos ∧ answer t 7 = none ∧
      Bytewise.calls t 6 = .ok ((List.range 6).map (answer t), ⟨17, true⟩) := by
  intro t
  obtain ⟨hcalls, -, -, hlt, hnone, -⟩ := calls_advance_and_end t
  have herror : answer t 4 = some (.error ⟨17⟩) := by decide +kernel
  have hsegment : answer t 1 = some (.ok (.braced ['A'] .assign "\x7b€\x7d".toList)) := by decide +kernel
  have hlast : (after t 6).position = ⟨17, true⟩ := by decide +kernel
  refine ⟨herror, hlt 1 _ hsegment, hnone 4 7 (fun g => ?_) (by decide), hlast ▸ hcalls 6⟩
  rw [herror]
  simp

end Cursor
end EnvTemplate
