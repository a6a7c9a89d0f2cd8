import EnvTemplate.Text.Utf8

/-! ASCII characters in the bytes of a text, and the order of texts.  An ASCII character is one byte, and
that byte stands for nothing else, so a byte of a text that looks like one is one, and a text and its bytes
have it equally often.  Texts are in the order of their bytes. -/
namespace EnvTemplate

theorem Text.splitAt?_eq_none {c : Char} {t : Text} (h : c ∉ t) : t.splitAt? c = none := by
  induction t with
  | nil => rfl
  | cons d t ih =>
    simp only [List.mem_cons, not_or] at h
    rw [splitAt?, if_neg (Ne.symm h.1), ih h.2]
    rfl

namespace Utf8

def IsAscii (x : Char) : Prop := x.val.toNat < 128

instance (x : Char) : Decidable (IsAscii x) := inferInstanceAs (Decidable (_ < _))

theorem encode_cons (c : Char) (t : Text) :
    encode (c :: t) = String.utf8EncodeChar c ++ encode t := rfl

theorem encodeChar_of_isAscii {x : Char} (h : IsAscii x) :
    String.utf8EncodeChar x = [x.toUInt8] := by
  have hx : x.val.toNat ≤ 127 := Nat.le_of_lt_succ h
  rw [String.utf8EncodeChar, if_pos hx, Char.toUInt8, UInt8.ofNat_uInt32ToNat]

theorem le_of_mem_encodeChar {c : Char} (h : ¬IsAscii c) {b : UInt8}
    (hb : b ∈ String.utf8EncodeChar c) : 128 ≤ b.toNat := by
  have hc : ¬c.val.toNat ≤ 127 := fun hle => h (Nat.lt_succ_of_le hle)
  simp only [String.utf8EncodeChar, if_neg hc] at hb
  split at hb
  · simp only [List.mem_cons, List.not_mem_nil, or_false] at hb
    rcases hb with rfl | rfl <;> rw [UInt8.toNat_ofNat'] <;> omega
  · split at hb
    · simp only [List.mem_cons, List.not_mem_nil, or_false] at hb
      rcases hb with rfl | rfl | rfl <;> rw [UInt8.toNat_ofNat'] <;> omega
    · simp only [List.mem_cons, List.not_mem_nil, or_false] at hb
      rcases hb with rfl | rfl | rfl | rfl <;> rw [UInt8.toNat_ofNat'] <;> omega

theorem toNat_toUInt8 {x : Char} (h : IsAscii x) : x.toUInt8.toNat = x.val.toNat := by
  have hx : x.val.toNat < 128 := h
  rw [Char.toUInt8, UInt32.toNat_toUInt8]
  omega

/-- The byte of an ASCII character is among the bytes of that character alone. -/
theorem mem_encodeChar_iff {x c : Char} (h : IsAscii x) :
    x.toUInt8 ∈ String.utf8EncodeChar c ↔ x = c := by
  constructor
  · intro hm
    by_cases hc : IsAscii c
    · rw [encodeChar_of_isAscii hc, List.mem_singleton] at hm
      have hn := congrArg UInt8.toNat hm
      rw [toNat_toUInt8 h, toNat_toUInt8 hc] at hn
      exact Char.ext (UInt32.toNat_inj.mp hn)
    · have hle := le_of_mem_encodeChar hc hm
      rw [toNat_toUInt8 h] at hle
      exact absurd h (Nat.not_lt.mpr hle)
  · rintro rfl
    simp [encodeChar_of_isAscii h]

theorem count_encodeChar {x : Char} (h : IsAscii x) (c : Char) :
    (String.utf8EncodeChar c).count x.toUInt8 = [c].count x := by
  by_cases hc : x = c
  · subst hc
    simp [encodeChar_of_isAscii h]
  · rw [List.count_eq_zero_of_not_mem fun hm => hc ((mem_encodeChar_iff h).mp hm),
      List.count_eq_zero_of_not_mem (by simpa using hc)]

theorem count_encode {x : Char} (h : IsAscii x) (t : Text) :
    (encode t).count x.toUInt8 = t.count x := by
  induction t with
  | nil => rfl
  | cons c t ih =>
    rw [encode_cons, List.count_append, count_encodeChar h, ih, ← List.count_append]
    rfl

/-- A byte that looks like an ASCII character is one. -/
theorem exists_of_getElem?_encode {x : Char} (h : IsAscii x) {t : Text} {o : Nat}
    (ho : (encode t)[o]? = some x.toUInt8) : ∃ a b, t = a ++ x :: b ∧ a.byteSize = o := by
  induction t generalizing o with
  | nil => simp [encode] at ho
  | cons c t ih =>
    rw [encode_cons] at ho
    by_cases hl : o < (String.utf8EncodeChar c).length
    · rw [List.getElem?_append_left hl] at ho
      obtain rfl := (mem_encodeChar_iff h).mp (List.mem_of_getElem? ho)
      rw [encodeChar_of_isAscii h] at hl
      exact ⟨[], t, rfl, (Nat.lt_one_iff.mp hl).symm⟩
    · have hle := Nat.le_of_not_lt hl
      rw [List.getElem?_append_right hle] at ho
      obtain ⟨a, b, rfl, ha⟩ := ih ho
      rw [String.length_utf8EncodeChar] at ha hle
      exact ⟨c :: a, b, rfl, by rw [Text.byteSize_cons]; omega⟩

theorem getElem?_encode_append (a u : Text) (n : Nat) :
    (encode (a ++ u))[a.byteSize + n]? = (encode u)[n]? := by
  rw [encode_append, List.getElem?_append_right (by simp), length_encode, Nat.add_sub_cancel_left]

theorem findIdx?_encode {x : Char} (h : IsAscii x) (t : Text) :
    (encode t).findIdx? (· == x.toUInt8) = (t.splitAt? x).map fun r => r.1.byteSize := by
  induction t with
  | nil => rfl
  | cons c t ih =>
    rw [encode_cons, List.findIdx?_append, Text.splitAt?]
    by_cases hc : c = x
    · subst hc
      rw [if_pos rfl, encodeChar_of_isAscii h]
      simp
    · have hnone : (String.utf8EncodeChar c).findIdx? (· == x.toUInt8) = none := by
        rw [List.findIdx?_eq_none_iff]
        intro y hy
        apply beq_eq_false_iff_ne.mpr
        rintro rfl
        exact hc ((mem_encodeChar_iff h).mp hy).symm
      rw [if_neg hc, hnone, ih, String.length_utf8EncodeChar, Option.map_map, Option.map_map]
      simp [Function.comp_def, Nat.add_comm]

/-- The ASCII characters in some first bytes of a text are those of a beginning of the text, even if a
character is cut. -/
theorem exists_prefix_take (t : Text) (k : Nat) :
    ∃ p, p <+: t ∧ ∀ x, IsAscii x → ((encode t).take k).count x.toUInt8 = p.count x := by
  induction t generalizing k with
  | nil => exact ⟨[], List.nil_prefix, fun x _ => by simp [encode]⟩
  | cons c t ih =>
    rw [encode_cons]
    by_cases hk : k < (String.utf8EncodeChar c).length
    · refine ⟨[], List.nil_prefix, fun x hx => ?_⟩
      rw [List.take_append_of_le_length (Nat.le_of_lt hk), List.count_nil, List.count_eq_zero]
      intro hm
      obtain rfl := (mem_encodeChar_iff hx).mp (List.mem_of_mem_take hm)
      rw [encodeChar_of_isAscii hx] at hk hm
      simp [Nat.lt_one_iff.mp hk] at hm
    · obtain ⟨p, hp, hcount⟩ := ih (k - (String.utf8EncodeChar c).length)
      refine ⟨c :: p, List.cons_prefix_cons.mpr ⟨rfl, hp⟩, fun x hx => ?_⟩
      rw [List.take_append, List.take_of_length_le (Nat.le_of_not_lt hk), List.count_append,
        count_encodeChar hx, hcount x hx, ← List.count_append]
      rfl

/-! ### The order of texts -/

/-- Of two characters the lesser one has the lesser bytes, and it does not matter what follows. -/
theorem encodeChar_append_lt {c d : Char} (h : c < d) (x y : Bytes) :
    String.utf8EncodeChar c ++ x < String.utf8EncodeChar d ++ y := by
  have hv : c.val.toNat < d.val.toNat := h
  have hd : d.val.toNat < 0x110000 := by
    rcases d.valid with h | h
    · exact Nat.lt_trans h (by decide)
    · exact h.2
  have hdiv (n : Nat) : n / 4096 = n / 64 / 64 ∧ n / 262144 = n / 64 / 64 / 64 := by omega
  simp only [String.utf8EncodeChar, hdiv]
  generalize c.val.toNat = m at *
  generalize d.val.toNat = n at *
  -- One case for each pair of lengths; the first bytes that differ are decided by the digits to base 64.
  repeat' split
  all_goals
    simp only [List.cons_append, List.nil_append, List.cons_lt_cons_iff, UInt8.lt_iff_toNat_lt,
      ← UInt8.toNat_inj, UInt8.toNat_ofNat']
    simp (disch := omega) only [Nat.mod_eq_of_lt (b := 256), Nat.reducePow]
    omega

theorem encode_lt_of_compare {a b : Text} (h : compare a b = .lt) : encode a < encode b := by
  induction a generalizing b with
  | nil =>
    cases b with
    | nil => cases h
    | cons d b =>
      obtain ⟨x, xs, hx⟩ := List.exists_cons_of_ne_nil (String.utf8EncodeChar_ne_nil (c := d))
      rw [encode_cons, hx]
      exact .nil
  | cons c a ih =>
    cases b with
    | nil => cases h
    | cons d b =>
      rw [encode_cons, encode_cons]
      rw [List.compare_cons_cons, Ordering.then_eq_lt] at h
      rcases h with h | ⟨h, hrest⟩
      · exact encodeChar_append_lt (compareOfLessAndEq_eq_lt.mp h) _ _
      · obtain rfl := Std.LawfulEqCmp.eq_of_compare h
        exact List.append_left_lt (ih hrest)

end Utf8
end EnvTemplate
