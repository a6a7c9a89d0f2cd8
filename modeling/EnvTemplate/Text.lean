/-!
Text as a list of characters.  Positions in a text are counted in the bytes of its UTF-8 form, so
the size of a text is the sum of the widths of its characters and a position between two characters
is the size of what stands before it.
-/
namespace EnvTemplate

abbrev Text := List Char

namespace Text

def byteSize (t : Text) : Nat := t.foldr (fun c size => c.utf8Size + size) 0

@[simp] theorem byteSize_nil : byteSize [] = 0 := rfl

@[simp] theorem byteSize_cons (c : Char) (t : Text) :
    byteSize (c :: t) = c.utf8Size + byteSize t := rfl

@[simp] theorem byteSize_append (s t : Text) : byteSize (s ++ t) = byteSize s + byteSize t := by
  induction s with
  | nil => simp
  | cons c s ih => simp [ih, Nat.add_assoc]

theorem byteSize_pos {t : Text} (h : t ≠ []) : 0 < byteSize t := by
  cases t with
  | nil => exact absurd rfl h
  | cons c t =>
    have := c.utf8Size_pos
    simp only [byteSize_cons]
    omega

theorem length_le_byteSize (t : Text) : t.length ≤ byteSize t := by
  induction t with
  | nil => simp
  | cons c t ih =>
    have := c.utf8Size_pos
    simp only [List.length_cons, byteSize_cons]
    omega

def splitAt? (c : Char) : Text → Option (Text × Text)
  | [] => none
  | d :: t => if d = c then some ([], t) else (splitAt? c t).map fun (a, b) => (d :: a, b)

theorem splitAt?_eq_some {c : Char} {t a b : Text} (h : splitAt? c t = some (a, b)) :
    t = a ++ c :: b ∧ c ∉ a := by
  induction t generalizing a with
  | nil => simp [splitAt?] at h
  | cons d t ih =>
    by_cases hd : d = c
    · simp only [splitAt?, hd, if_true, Option.some.injEq, Prod.mk.injEq] at h
      obtain ⟨rfl, rfl⟩ := h
      simp [hd]
    · simp only [splitAt?, hd, if_false, Option.map_eq_some_iff, Prod.exists, Prod.mk.injEq] at h
      obtain ⟨a', b', h', rfl, rfl⟩ := h
      obtain ⟨rfl, hc⟩ := ih h'
      exact ⟨rfl, by simp [hc, Ne.symm hd]⟩

theorem splitAt?_append_cons {c : Char} {a : Text} (h : c ∉ a) (b : Text) :
    splitAt? c (a ++ c :: b) = some (a, b) := by
  induction a with
  | nil => simp [splitAt?]
  | cons d a ih =>
    simp only [List.mem_cons, not_or] at h
    simp [splitAt?, Ne.symm h.1, ih h.2]

/-- The number of characters before the first occurrence of a pattern. -/
def indexOf? (pattern : Text) : Text → Option Nat
  | [] => if pattern.isEmpty then some 0 else none
  | c :: t => if pattern.isPrefixOf (c :: t) then some 0 else (indexOf? pattern t).map (· + 1)

theorem indexOf?_eq_some {p t : Text} {i : Nat} (h : indexOf? p t = some i) :
    t = t.take i ++ p ++ t.drop (i + p.length) := by
  induction t generalizing i with
  | nil =>
    cases p with
    | nil => simp
    | cons c p => simp [indexOf?] at h
  | cons c t ih =>
    by_cases hp : p.isPrefixOf (c :: t) = true
    · rw [indexOf?, if_pos hp, Option.some.injEq] at h
      obtain ⟨u, hu⟩ := List.isPrefixOf_iff_prefix.mp hp
      simp [← h, ← hu]
    · rw [indexOf?, if_neg hp, Option.map_eq_some_iff] at h
      obtain ⟨j, hj, rfl⟩ := h
      have ht := congrArg (c :: ·) (ih hj)
      simpa [Nat.add_right_comm] using ht

theorem indexOf?_le (a p b : Text) : ∃ i, indexOf? p (a ++ p ++ b) = some i ∧ i ≤ a.length := by
  induction a with
  | nil =>
    cases p with
    | nil => cases b <;> simp [indexOf?]
    | cons c p => simp [indexOf?]
  | cons c a ih =>
    obtain ⟨i, hi, hl⟩ := ih
    by_cases hp : p.isPrefixOf (c :: (a ++ p ++ b)) = true
    · refine ⟨0, ?_, Nat.zero_le _⟩
      rw [List.cons_append, List.cons_append, indexOf?, if_pos hp]
    · refine ⟨i + 1, ?_, Nat.succ_le_succ hl⟩
      rw [List.cons_append, List.cons_append, indexOf?, if_neg hp, hi]
      rfl

/-- The parts of a text before and after a position, if the position is between two characters. -/
def splitBytes? : Nat → Text → Option (Text × Text)
  | 0, t => some ([], t)
  | _ + 1, [] => none
  | n + 1, c :: t =>
    if c.utf8Size ≤ n + 1 then
      (splitBytes? (n + 1 - c.utf8Size) t).map fun (a, b) => (c :: a, b)
    else none

theorem splitBytes?_eq_some {n : Nat} {t a b : Text} (h : splitBytes? n t = some (a, b)) :
    t = a ++ b ∧ byteSize a = n := by
  fun_induction splitBytes? n t generalizing a with
  | case1 => simp_all
  | case2 => simp at h
  | case3 n c t hc ih =>
    simp only [Option.map_eq_some_iff, Prod.exists, Prod.mk.injEq] at h
    obtain ⟨a', b', h', rfl, rfl⟩ := h
    obtain ⟨rfl, hn⟩ := ih h'
    refine ⟨rfl, ?_⟩
    simp only [byteSize_cons]
    omega
  | case4 => simp at h

theorem splitBytes?_byteSize_append (a b : Text) :
    splitBytes? (byteSize a) (a ++ b) = some (a, b) := by
  induction a with
  | nil => simp [splitBytes?]
  | cons c a ih =>
    have hc := c.utf8Size_pos
    obtain ⟨n, hn⟩ : ∃ n, byteSize (c :: a) = n + 1 := ⟨byteSize (c :: a) - 1, by simp; omega⟩
    have hs : n + 1 - c.utf8Size = byteSize a := by simp at hn; omega
    have hle : c.utf8Size ≤ n + 1 := by simp at hn; omega
    rw [hn]
    simp [splitBytes?, hle, hs, ih]

def slice? (first last : Nat) (t : Text) : Option Text := do
  let (_, t) ← splitBytes? first t
  let (word, _) ← splitBytes? (last - first) t
  some word

end Text
end EnvTemplate
