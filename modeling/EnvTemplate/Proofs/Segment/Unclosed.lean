import EnvTemplate.Proofs.Segment.Grammar
import EnvTemplate.Proofs.Text.Bytes

/-! Where a scan breaks off.  It does so at the one byte at which a placeholder is opened for good: what
stands before that byte can be scanned on its own, and behind it no brace closes what was opened.  The
braces are counted in the bytes of the template. -/
namespace EnvTemplate

open Segment Text

namespace Utf8

/-- The bytes from a position to another one, which is among them. -/
def bytesTo (b : Bytes) (first last : Nat) : Bytes := (b.take (last + 1)).drop first

theorem bytesTo_append (a b : Bytes) (n m : Nat) :
    bytesTo (a ++ b) (a.length + n) (a.length + m) = bytesTo b n m := by
  have hn : a.length + n - a.length = n := by omega
  rw [bytesTo, bytesTo, Nat.add_assoc, List.take_length_add_append, List.drop_append, hn,
    List.drop_eq_nil_of_le (Nat.le_add_right _ _), List.nil_append]

end Utf8

/-- A placeholder is opened at a byte of a template, and nothing closes it.  The template can be scanned
up to this byte. -/
structure OpensForGood (t : Text) (o : Nat) : Prop where
  sigil : (Utf8.encode t)[o]? = some '$'.toUInt8
  brace : (Utf8.encode t)[o + 1]? = some '{'.toUInt8
  before : ∃ a rest, splitBytes? o t = some (a, rest) ∧ (scan a).unclosed = none
  /-- More braces are opened than closed, wherever the counting from the first brace on stops. -/
  excess : ∀ j, o + 1 ≤ j → j < t.byteSize →
    (Utf8.bytesTo (Utf8.encode t) (o + 1) j).count '}'.toUInt8 <
      (Utf8.bytesTo (Utf8.encode t) (o + 1) j).count '{'.toUInt8

theorem scan_append_unclosed {a u : Text} (ha : (scan a).unclosed = none) (hu : StaysWithin 0 u) :
    scan (a ++ '$' :: '{' :: u) = ⟨(scan a).segments, some ⟨a.byteSize⟩⟩ := by
  induction a using scan_induction with
  | nil => exact scan_unclosed hu
  | unclosed v hv => simp [scan_unclosed hv] at ha
  | segment t g rest h ih =>
    have hrest : (scan rest).unclosed = none := by
      simpa [scan_of_begins h, Scan.cons, Scan.shift] using ha
    have hb : Begins (t ++ '$' :: '{' :: u) g (rest ++ '$' :: '{' :: u) := by
      refine h.append fun c hc => ?_
      cases rest with
      | nil => exact .inr (Option.some.inj hc).symm
      | cons d rest => exact .inl hc
    rw [scan_of_begins hb, ih hrest, scan_of_begins h, ← h.source_append, byteSize_append]
    rfl

/-- The bytes from a brace on open more braces than they close, wherever they are cut, if no beginning
of the text behind the brace closes more than it opens. -/
theorem take_excess_iff (u : Text) :
    (∀ j < byteSize ('{' :: u),
        ((Utf8.encode ('{' :: u)).take (j + 1)).count '}'.toUInt8 <
          ((Utf8.encode ('{' :: u)).take (j + 1)).count '{'.toUInt8) ↔ StaysWithin 0 u := by
  constructor
  · rintro h p ⟨v, rfl⟩
    have hsize : byteSize p < byteSize ('{' :: (p ++ v)) := by
      rw [byteSize_cons, byteSize_append]
      have := Char.utf8Size_pos '{'
      omega
    have htake : (Utf8.encode ('{' :: (p ++ v))).take (byteSize p + 1) = Utf8.encode ('{' :: p) := by
      have hlen : byteSize p + 1 = (Utf8.encode ('{' :: p)).length := by
        rw [Utf8.length_encode, byteSize_cons, Nat.add_comm]
        rfl
      rw [hlen, ← List.cons_append, Utf8.encode_append, List.take_left]
    have hlt := h (byteSize p) hsize
    rw [htake, Utf8.count_encode (by decide), Utf8.count_encode (by decide), List.count_cons_self,
      List.count_cons_of_ne (by decide)] at hlt
    exact Nat.lt_succ_iff.mp hlt
  · intro h j _
    -- The cut may fall into a character, which is no brace then.
    obtain ⟨p, hp, hcount⟩ := Utf8.exists_prefix_take u j
    have htake : (Utf8.encode ('{' :: u)).take (j + 1) = '{'.toUInt8 :: (Utf8.encode u).take j := rfl
    rw [htake, List.count_cons_self, List.count_cons_of_ne (by decide), hcount '}' (by decide),
      hcount '{' (by decide)]
    exact Nat.lt_succ_iff.mpr (h p hp)

theorem bytesTo_opening (a u : Text) (j : Nat) :
    Utf8.bytesTo (Utf8.encode (a ++ '$' :: '{' :: u)) (a.byteSize + 1) (a.byteSize + 1 + j) =
      (Utf8.encode ('{' :: u)).take (j + 1) := by
  have he : Utf8.encode (a ++ '$' :: '{' :: u) = Utf8.encode (a ++ ['$']) ++ Utf8.encode ('{' :: u) := by
    rw [← Utf8.encode_append, List.append_assoc]
    rfl
  have hl : a.byteSize + 1 = (Utf8.encode (a ++ ['$'])).length := by
    rw [Utf8.length_encode, byteSize_append]
    rfl
  rw [he, hl]
  exact Utf8.bytesTo_append _ _ 0 j

theorem excess_iff (a u : Text) :
    (∀ j, a.byteSize + 1 ≤ j → j < (a ++ '$' :: '{' :: u).byteSize →
        (Utf8.bytesTo (Utf8.encode (a ++ '$' :: '{' :: u)) (a.byteSize + 1) j).count '}'.toUInt8 <
          (Utf8.bytesTo (Utf8.encode (a ++ '$' :: '{' :: u)) (a.byteSize + 1) j).count '{'.toUInt8) ↔
      StaysWithin 0 u := by
  have hsize : (a ++ '$' :: '{' :: u).byteSize = a.byteSize + 1 + byteSize ('{' :: u) := by
    rw [byteSize_append, byteSize_cons, Nat.add_assoc]
    rfl
  rw [← take_excess_iff, hsize]
  constructor
  · intro h j hj
    rw [← bytesTo_opening a u j]
    exact h _ (Nat.le_add_right _ _) (Nat.add_lt_add_left hj _)
  · intro h j hle hlt
    obtain ⟨i, rfl⟩ := Nat.exists_eq_add_of_le hle
    rw [bytesTo_opening]
    exact h i (Nat.lt_of_add_lt_add_left hlt)

/-- A placeholder is opened for good where its `$` stands behind a text that can be scanned and nothing
closes the brace. -/
theorem opensForGood_iff {t : Text} {o : Nat} :
    OpensForGood t o ↔
      ∃ a u, t = a ++ '$' :: '{' :: u ∧ a.byteSize = o ∧ (scan a).unclosed = none ∧ StaysWithin 0 u := by
  constructor
  · rintro ⟨hsigil, hbrace, ⟨b, rest, hsplit, hscan⟩, hexcess⟩
    obtain ⟨a, r, rfl, rfl⟩ := Utf8.exists_of_getElem?_encode (by decide) hsigil
    rw [splitBytes?_byteSize_append] at hsplit
    obtain ⟨rfl, -⟩ := Prod.mk.inj (Option.some.inj hsplit)
    have hfirst : (Utf8.encode r)[0]? = some '{'.toUInt8 := by
      rw [Utf8.encode_append, List.getElem?_append_right (by simp)] at hbrace
      simpa [Utf8.encode_cons, Utf8.encodeChar_of_isAscii (x := '$') (by decide)] using hbrace
    obtain ⟨c, u, rfl, hc⟩ := Utf8.exists_of_getElem?_encode (by decide) hfirst
    have hl := length_le_byteSize c
    rw [hc] at hl
    obtain rfl := List.eq_nil_of_length_eq_zero (Nat.le_zero.mp hl)
    exact ⟨a, u, rfl, rfl, hscan, (excess_iff a u).mp hexcess⟩
  · rintro ⟨a, u, rfl, rfl, hscan, hu⟩
    have hbytes : ∀ n, (Utf8.encode (a ++ '$' :: '{' :: u))[a.byteSize + n]? =
        ('$'.toUInt8 :: '{'.toUInt8 :: Utf8.encode u)[n]? := by
      intro n
      rw [Utf8.encode_append, List.getElem?_append_right (by simp), Utf8.length_encode,
        Nat.add_sub_cancel_left]
      rfl
    exact ⟨hbytes 0, hbytes 1, ⟨a, _, splitBytes?_byteSize_append a _, hscan⟩, (excess_iff a u).mpr hu⟩

theorem unclosed_eq_some_iff {t : Text} {o : Nat} :
    (scan t).unclosed = some ⟨o⟩ ↔ OpensForGood t o := by
  rw [opensForGood_iff]
  constructor
  · intro h
    obtain ⟨rest, ht, hl⟩ := exists_leaves t
    cases hl with
    | nothing hn => simp [h] at hn
    | @unclosed u hs hu =>
      have hbefore : (scan (sources (scan t).segments)).unclosed = none := by
        rw [scan_sources (canonical_scan t)]
      have ho : (sources (scan t).segments).byteSize = o :=
        congrArg UnclosedBrace.offset (Option.some.inj (hs.symm.trans h))
      exact ⟨_, u, ht, ho, hbefore, hu⟩
  · rintro ⟨a, u, rfl, rfl, ha, hu⟩
    rw [scan_append_unclosed ha hu]

/-- A scan breaks off at a byte if and only if a placeholder is opened there for good, which is so at one
byte at most.  Its segments are then those of the text before this byte. -/
theorem scan_breaks_off_where_opened_for_good (t : Text) :
    (∀ o, (scan t).unclosed = some ⟨o⟩ ↔ OpensForGood t o) ∧
      (∀ o a rest, OpensForGood t o → splitBytes? o t = some (a, rest) →
        scan t = ⟨(scan a).segments, some ⟨o⟩⟩) ∧
      ∀ o o', OpensForGood t o → OpensForGood t o' → o = o' := by
  refine ⟨fun o => unclosed_eq_some_iff, fun o a rest h hsplit => ?_, fun o o' h h' => ?_⟩
  · obtain ⟨b, u, rfl, rfl, hb, hu⟩ := opensForGood_iff.mp h
    rw [splitBytes?_byteSize_append] at hsplit
    obtain ⟨rfl, -⟩ := Prod.mk.inj (Option.some.inj hsplit)
    exact scan_append_unclosed hb hu
  · have he := (unclosed_eq_some_iff.mpr h).symm.trans (unclosed_eq_some_iff.mpr h')
    exact congrArg UnclosedBrace.offset (Option.some.inj he)

theorem scan_breaks_off_where_opened_for_good_nested :
    let a : Text := "é\x7d$\x7bA:-$\x7bB\x7d\x7d$x".toList
    let t : Text := a ++ "$\x7bC:=\x7b\x7d€".toList
    OpensForGood t 15 ∧ ¬OpensForGood t 8 ∧ scan t = ⟨(scan a).segments, some ⟨15⟩⟩ := by
  intro a t
  obtain ⟨hiff, hbefore, hunique⟩ := scan_breaks_off_where_opened_for_good t
  have h : OpensForGood t 15 := (hiff 15).mp (by decide +kernel)
  refine ⟨h, fun h' => ?_, hbefore 15 a _ h (splitBytes?_byteSize_append a _)⟩
  exact absurd (hunique _ _ h h') (by decide)

end EnvTemplate
