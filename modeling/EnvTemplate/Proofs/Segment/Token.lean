import EnvTemplate.Proofs.Segment.Braces

/-! Operator tokens in the content of a placeholder.  The search for a token finds the leftmost one,
and what stands before it decides what the placeholder is. -/
namespace EnvTemplate

theorem Name.not_mem_of_isValid {n : Text} (h : Name.isValid n = true) {c : Char}
    (hc : Name.isPart c = false) : c ∉ n := by
  intro hm
  simp [Name.isPart_of_isValid h hm] at hc

namespace Operator

theorem sign_injective : Function.Injective sign := by
  intro a b h
  cases a <;> cases b <;> first | rfl | exact absurd h (by decide)

/-- The leftmost token of a content, with the text before and after it. -/
structure IsLeftmost (content name : Text) (op : Operator) (operand : Text) : Prop where
  eq : content = name ++ op.token ++ operand
  le : ∀ n o w, content = n ++ token o ++ w → name.length ≤ n.length

def HasNone (content : Text) : Prop := ∀ n o w, content ≠ n ++ token o ++ w

theorem mem_all (op : Operator) : op ∈ all := by
  cases op <;> simp [all]

theorem find?_le {content : Text} {i j : Nat} {op o : Operator} (h : find? content = some (i, op))
    (ho : Text.indexOf? o.token content = some j) : i ≤ j := by
  have hm : (j, o) ∈ all.filterMap fun o => (Text.indexOf? o.token content).map (·, o) :=
    List.mem_filterMap.mpr ⟨o, mem_all o, by rw [ho]; rfl⟩
  have hle := List.apply_get_minOn?_le_of_mem (f := Prod.fst) hm
  have hget := Option.get_of_eq_some (List.isSome_minOn?_of_mem hm) h
  rwa [hget] at hle

theorem find?_eq_none_iff {content : Text} :
    find? content = none ↔ ∀ o, Text.indexOf? (token o) content = none := by
  rw [find?, ← Option.not_isSome_iff_eq_none, List.isSome_minOn?_iff, Decidable.not_not,
    List.filterMap_eq_nil_iff]
  refine ⟨fun h o => ?_, fun h o _ => by rw [h o]; rfl⟩
  exact Option.map_eq_none_iff.mp (h o (mem_all o))

theorem isLeftmost_of_split? {content name operand : Text} {op : Operator}
    (h : split? content = some (name, op, operand)) : IsLeftmost content name op operand := by
  refine ⟨eq_of_split? h, fun n o w he => ?_⟩
  simp only [split?, Option.map_eq_some_iff, Prod.exists, Prod.mk.injEq] at h
  obtain ⟨i, p, hf, rfl, rfl, rfl⟩ := h
  obtain ⟨j, hj, hl⟩ := Text.indexOf?_le n o.token w
  rw [← he] at hj
  exact Nat.le_trans (List.length_take_le i content) (Nat.le_trans (find?_le hf hj) hl)

theorem split?_eq_none_iff {content : Text} : split? content = none ↔ HasNone content := by
  rw [split?, Option.map_eq_none_iff, find?_eq_none_iff]
  constructor
  · intro h n o w he
    obtain ⟨i, hi, -⟩ := Text.indexOf?_le n (token o) w
    rw [← he, h o] at hi
    cases hi
  · intro h o
    cases ho : Text.indexOf? (token o) content with
    | none => rfl
    | some i => exact absurd (Text.indexOf?_eq_some ho) (h _ _ _)

theorem IsLeftmost.unique {content n m v w : Text} {o p : Operator}
    (h : IsLeftmost content n o v) (h' : IsLeftmost content m p w) : n = m ∧ o = p ∧ v = w := by
  have hl : n.length = m.length := Nat.le_antisymm (h.le m p w h'.eq) (h'.le n o v h.eq)
  have he : n ++ (o.token ++ v) = m ++ (p.token ++ w) := by
    rw [← List.append_assoc, ← List.append_assoc, ← h.eq, ← h'.eq]
  obtain ⟨rfl, ht⟩ := List.append_inj he hl
  simp only [token, List.cons_append, List.nil_append, List.cons.injEq, true_and] at ht
  exact ⟨rfl, sign_injective ht.1, ht.2⟩

/-- The search for a token finds the leftmost one. -/
theorem split?_eq_some_iff {content name operand : Text} {op : Operator} :
    split? content = some (name, op, operand) ↔ IsLeftmost content name op operand := by
  constructor
  · exact isLeftmost_of_split?
  · intro h
    cases hs : split? content with
    | none => exact absurd h.eq (split?_eq_none_iff.mp hs _ _ _)
    | some r =>
      obtain ⟨n, o, v⟩ := r
      obtain ⟨rfl, rfl, rfl⟩ := (isLeftmost_of_split? hs).unique h
      rfl

theorem split?_token (op : Operator) (t : Text) : split? (op.token ++ t) = some ([], op, t) :=
  split?_eq_some_iff.mpr ⟨rfl, fun _ _ _ _ => Nat.zero_le _⟩

theorem split?_cons {c : Char} {t : Text} (hc : ∀ o w, c :: t ≠ token o ++ w) :
    split? (c :: t) = (split? t).map fun (before, op, after) => (c :: before, op, after) := by
  have hcons : ∀ n o w, c :: t = n ++ token o ++ w → ∃ m, n = c :: m ∧ t = m ++ token o ++ w := by
    intro n o w he
    cases n with
    | nil => exact absurd he (hc o w)
    | cons d m =>
      simp only [List.cons_append, List.cons.injEq] at he
      exact ⟨m, by rw [he.1], he.2⟩
  cases hs : split? t with
  | none =>
    refine split?_eq_none_iff.mpr fun n o w he => ?_
    obtain ⟨m, -, hm⟩ := hcons n o w he
    exact split?_eq_none_iff.mp hs m o w hm
  | some r =>
    obtain ⟨name, op, operand⟩ := r
    have hl := isLeftmost_of_split? hs
    refine split?_eq_some_iff.mpr ⟨by rw [hl.eq]; rfl, fun n o w he => ?_⟩
    obtain ⟨m, rfl, hm⟩ := hcons n o w he
    exact Nat.succ_le_succ (hl.le m o w hm)

/-- A name has no colon, so the token behind it is the leftmost one. -/
theorem isLeftmost_of_isValid {name : Text} (hn : Name.isValid name = true) (op : Operator)
    (operand : Text) : IsLeftmost (name ++ op.token ++ operand) name op operand := by
  refine ⟨rfl, fun n o w he => Nat.le_of_not_lt fun hl => ?_⟩
  have hc : (n ++ token o ++ w)[n.length]? = some ':' := by simp [token]
  rw [← he, List.append_assoc, List.getElem?_append_left hl] at hc
  exact Name.not_mem_of_isValid hn (by decide) (List.mem_of_getElem? hc)

theorem hasNone_of_isValid {name : Text} (hn : Name.isValid name = true) : HasNone name := by
  intro n o w he
  have hm : ':' ∈ name := by simp [he, token]
  exact Name.not_mem_of_isValid hn (by decide) hm

end Operator

namespace Segment

open Operator

/-- The part of a content that should be a name: what stands before the leftmost token, or all of
it if there is no token. -/
inductive NamePart (content : Text) : Text → Prop
  | before {name operand : Text} {op : Operator} (h : IsLeftmost content name op operand) :
      NamePart content name
  | whole (h : HasNone content) : NamePart content content

theorem ofContent_braced {name : Text} (hn : Name.isValid name = true) (op : Operator)
    (operand : Text) : ofContent (name ++ op.token ++ operand) = braced name op operand := by
  have hs := split?_eq_some_iff.mpr (isLeftmost_of_isValid hn op operand)
  simp only [ofContent, hs, hn, if_true]

theorem ofContent_plain {name : Text} (hn : Name.isValid name = true) :
    ofContent name = plain name (inBraces name) := by
  have hs := split?_eq_none_iff.mpr (hasNone_of_isValid hn)
  simp only [ofContent, hs, hn, if_true]

theorem ofContent_literal {content name : Text} (h : NamePart content name)
    (hn : Name.isValid name = false) : ofContent content = literal (inBraces content) := by
  cases h with
  | before h => simp [ofContent, split?_eq_some_iff.mpr h, hn]
  | whole h => simp [ofContent, split?_eq_none_iff.mpr h, hn]

theorem exists_namePart (content : Text) : ∃ name, NamePart content name := by
  cases hs : split? content with
  | none => exact ⟨content, .whole (split?_eq_none_iff.mp hs)⟩
  | some r => exact ⟨r.1, .before (split?_eq_some_iff.mp hs)⟩

theorem ofContent_cases (content : Text) :
    (∃ name op operand, Name.isValid name = true ∧ content = name ++ Operator.token op ++ operand ∧
      ofContent content = braced name op operand) ∨
    (Name.isValid content = true ∧ ofContent content = plain content (inBraces content)) ∨
    (∃ name, NamePart content name ∧ Name.isValid name = false ∧
      ofContent content = literal (inBraces content)) := by
  obtain ⟨name, h⟩ := exists_namePart content
  cases hn : Name.isValid name with
  | false => exact Or.inr (Or.inr ⟨name, h, hn, ofContent_literal h hn⟩)
  | true =>
    cases h with
    | @before _ operand op h =>
      refine Or.inl ⟨name, op, operand, hn, h.eq, ?_⟩
      rw [h.eq]
      exact ofContent_braced hn op operand
    | whole h => exact Or.inr (Or.inl ⟨hn, ofContent_plain hn⟩)

end Segment
end EnvTemplate
