import EnvTemplate.Proofs.Segment.Reading
import EnvTemplate.Proofs.Segment.Search

/-! Reading segments byte by byte.  A position is a number of bytes here, and what a reader does with it is
checked: that a byte which is asked for is there, that a part of a text begins and ends between characters,
and that no number is taken from a lesser one.  Where a cursor stands, this reader makes no misstep, and it
answers what the cursor answers. -/
namespace EnvTemplate

open Segment Text

/-- What a reader must not do. -/
inductive Misstep
  /-- To ask for a byte behind the last one. -/
  | index (i : Nat)
  /-- To cut a text inside a character, behind its end, or at an end that lies before the beginning. -/
  | slice (first last : Nat)
  /-- To take a number from a lesser one. -/
  | difference (n m : Nat)
  deriving DecidableEq

abbrev Checked := Except Misstep

namespace Checked

theorem ok_bind {α β : Type} (a : α) (f : α → Checked β) : (Except.ok a >>= f) = f a := rfl

def byteAt (t : Text) (i : Nat) : Checked UInt8 :=
  match (Utf8.encode t)[i]? with
  | some x => .ok x
  | none => .error (.index i)

def slice (t : Text) (first last : Nat) : Checked Text :=
  match if first ≤ last then t.slice? first last else none with
  | some part => .ok part
  | none => .error (.slice first last)

theorem byteAt_eq_ok_iff {t : Text} {i : Nat} {x : UInt8} :
    byteAt t i = .ok x ↔ (Utf8.encode t)[i]? = some x := by
  rw [byteAt]
  cases (Utf8.encode t)[i]? <;> simp

def minus (n m : Nat) : Checked Nat :=
  if m ≤ n then .ok (n - m) else .error (.difference n m)

theorem minus_of_le {n m : Nat} (h : m ≤ n) : minus n m = .ok (n - m) := if_pos h

theorem slice_eq_ok_iff {t part : Text} {i j : Nat} :
    slice t i j = .ok part ↔
      ∃ a b, t = a ++ part ++ b ∧ a.byteSize = i ∧ a.byteSize + part.byteSize = j := by
  constructor
  · intro h
    unfold slice at h
    split at h
    · next hs =>
      obtain rfl := Except.ok.inj h
      split at hs
      · next hle =>
        obtain ⟨⟨a, r⟩, ha, hr⟩ := Option.bind_eq_some_iff.mp hs
        obtain ⟨⟨w, b⟩, hw, he⟩ := Option.bind_eq_some_iff.mp hr
        obtain rfl := Option.some.inj he
        obtain ⟨rfl, rfl⟩ := splitBytes?_eq_some ha
        obtain ⟨rfl, hj⟩ := splitBytes?_eq_some hw
        exact ⟨a, b, (List.append_assoc _ _ _).symm, rfl, by omega⟩
      · cases hs
    · cases h
  · rintro ⟨a, b, rfl, rfl, rfl⟩
    have hs : (a ++ part ++ b).slice? a.byteSize (a.byteSize + part.byteSize) = some part := by
      rw [List.append_assoc, Text.slice?, splitBytes?_byteSize_append]
      show (splitBytes? (a.byteSize + part.byteSize - a.byteSize) (part ++ b)).bind _ = _
      rw [Nat.add_sub_cancel_left, splitBytes?_byteSize_append]
      rfl
    rw [slice, if_pos (Nat.le_add_right _ _), hs]

theorem slice_of_eq {t a part b : Text} {i j : Nat} (ht : t = a ++ part ++ b) (hi : a.byteSize = i)
    (hj : i + part.byteSize = j) : slice t i j = .ok part :=
  slice_eq_ok_iff.mpr ⟨a, b, ht, hi, by rw [hi]; exact hj⟩

theorem byteAt_append {u : Text} {x : UInt8} (h : byteAt u 0 = .ok x) (a : Text) :
    byteAt (a ++ u) a.byteSize = .ok x := by
  rw [byteAt_eq_ok_iff] at h ⊢
  exact (Utf8.getElem?_encode_append a u 0).trans h

end Checked

namespace Bytewise

open Checked

def charOf (x : UInt8) : Char := Char.ofNat x.toNat

/-- The end of the name that begins at `first`, of which the bytes before `last` were read. -/
def nameEnd (t : Text) (first last : Nat) : Checked Nat :=
  if last < t.byteSize then do
    let x ← byteAt t last
    let size ← minus last first
    if Name.isPart (charOf x) ∧ size < Name.maxLength then nameEnd t first (last + 1) else .ok last
  else .ok last
termination_by t.byteSize - last

/-- The place of the brace that closes the first one, in the bytes from a place on. -/
def closeAt (depth i : Nat) : Bytes → Checked (Option Nat)
  | [] => .ok none
  | x :: b =>
    if x = '{'.toUInt8 then closeAt (depth + 1) (i + 1) b
    else if x = '}'.toUInt8 then do
      let depth ← minus depth 1
      if depth = 0 then .ok (some i) else closeAt depth (i + 1) b
    else closeAt depth (i + 1) b

def bare (t : Text) (sigil : Nat) : Checked (Segment × Nat) := do
  let first := sigil + 1
  let x ← byteAt t first
  if Name.isStart (charOf x) then
    let last ← nameEnd t first (first + 1)
    let name ← slice t first last
    let raw ← slice t sigil last
    .ok (.plain name raw, last)
  else .ok (.literal ['$'], first)

def segmentOf (raw content : Text) : Checked Segment := do
  match Operator.place? content with
  | some (i, op) =>
    let name ← slice content 0 i
    if Name.isValid name then
      let operand ← slice content (i + 2) content.byteSize
      .ok (.braced name op operand)
    else .ok (.literal raw)
  | none => .ok (if Name.isValid content then .plain content raw else .literal raw)

/-- The segment of a `$` that a brace follows, and the position behind it, if the brace is closed. -/
def braced (t : Text) (sigil : Nat) : Checked (Option (Segment × Nat)) := do
  let opening := sigil + 1
  match ← closeAt 0 opening ((Utf8.encode t).drop opening) with
  | none => .ok none
  | some close =>
    let raw ← slice t sigil (close + 1)
    let content ← slice t (opening + 1) close
    let g ← segmentOf raw content
    .ok (some (g, close + 1))

def placeholder (t : Text) (sigil : Nat) : Checked (Option (Segment × Nat)) := do
  match (Utf8.encode t)[sigil + 1]? with
  | none => .ok (some (.literal ['$'], t.byteSize))
  | some x => if x = '{'.toUInt8 then braced t sigil else return some (← bare t sigil)

/-- A position in a template, and whether an unclosed brace was met. -/
structure Position where
  pos : Nat
  failed : Bool
  deriving DecidableEq

abbrev Answer := Option (Except UnclosedBrace Segment)

/-- The segment that the rest of a template begins with, and the position behind it.  The place of the first
`$` in the rest is given, if there is one. -/
def segmentAt (t rest : Text) (pos : Nat) : Option Nat → Checked (Answer × Position)
  | none => .ok (some (.ok (.literal rest)), ⟨t.byteSize, false⟩)
  | some (n + 1) => do
    let text ← slice rest 0 (n + 1)
    .ok (some (.ok (.literal text)), ⟨pos + (n + 1), false⟩)
  | some 0 => do
    match ← placeholder t pos with
    | none => .ok (some (.error ⟨pos⟩), ⟨pos, true⟩)
    | some (g, last) => .ok (some (.ok g), ⟨last, false⟩)

def next (t : Text) (p : Position) : Checked (Answer × Position) := do
  if p.failed || decide (t.byteSize ≤ p.pos) then .ok (none, p)
  else
    let rest ← slice t p.pos t.byteSize
    segmentAt t rest p.pos ((Utf8.encode rest).findIdx? (· == '$'.toUInt8))

/-- The answers of a number of calls, and the position after the last one. -/
def calls (t : Text) : Nat → Checked (List Answer × Position)
  | 0 => .ok ([], ⟨0, false⟩)
  | n + 1 => do
    let (answers, p) ← calls t n
    let (answer, p) ← next t p
    .ok (answers ++ [answer], p)

/-! ### Bytes and characters -/

theorem charOf_toUInt8 {c : Char} (h : Utf8.IsAscii c) : charOf c.toUInt8 = c := by
  rw [charOf, Utf8.toNat_toUInt8 h]
  exact Char.ofNat_toNat c

theorem isAscii_of_isPart {c : Char} (h : Name.isPart c = true) : Utf8.IsAscii c :=
  Nat.lt_succ_of_le (Char.utf8Size_eq_one_iff.mp (Name.utf8Size_of_isPart h))

theorem isPart_charOf_of_le {x : UInt8} (h : 128 ≤ x.toNat) : Name.isPart (charOf x) = false := by
  have hall : ∀ n < 256, 128 ≤ n → Name.isPart (Char.ofNat n) = false := by decide +kernel
  exact hall x.toNat x.toNat_lt h

/-- The first byte of a character tells whether the character belongs to a name. -/
theorem exists_encodeChar_eq (c : Char) :
    ∃ x b, String.utf8EncodeChar c = x :: b ∧ Name.isPart (charOf x) = Name.isPart c ∧
      Name.isStart (charOf x) = Name.isStart c := by
  by_cases hc : Utf8.IsAscii c
  · exact ⟨c.toUInt8, [], Utf8.encodeChar_of_isAscii hc, by rw [charOf_toUInt8 hc],
      by rw [charOf_toUInt8 hc]⟩
  · obtain ⟨x, b, hx⟩ := List.exists_cons_of_ne_nil (String.utf8EncodeChar_ne_nil (c := c))
    have hle := Utf8.le_of_mem_encodeChar hc (hx ▸ List.mem_cons_self)
    have hpart := isPart_charOf_of_le hle
    have hc' : Name.isPart c = false := Bool.eq_false_iff.mpr fun h => hc (isAscii_of_isPart h)
    have hstart : ∀ d, Name.isPart d = false → Name.isStart d = false :=
      fun d hd => Bool.eq_false_iff.mpr fun h => by simp [Name.isPart_of_isStart h] at hd
    exact ⟨x, b, hx, hpart.trans hc'.symm, (hstart _ hpart).trans (hstart _ hc').symm⟩

theorem byteAt_cons (c : Char) (u : Text) :
    ∃ x, byteAt (c :: u) 0 = .ok x ∧ Name.isPart (charOf x) = Name.isPart c ∧
      Name.isStart (charOf x) = Name.isStart c := by
  obtain ⟨x, b, hx, hpart, hstart⟩ := exists_encodeChar_eq c
  refine ⟨x, byteAt_eq_ok_iff.mpr ?_, hpart, hstart⟩
  rw [Utf8.encode_cons, hx]
  rfl

/-! ### Names -/

theorem byteSize_append_part {c : Char} (h : Name.isPart c = true) (a : Text) :
    byteSize (a ++ [c]) = a.byteSize + 1 := by
  rw [byteSize_append, byteSize_cons, Name.utf8Size_of_isPart h]
  rfl

theorem nameEnd_append (a u : Text) {first : Nat} (h : first ≤ a.byteSize) :
    nameEnd (a ++ u) first a.byteSize =
      .ok (a.byteSize + ((u.take (Name.maxLength - (a.byteSize - first))).takeWhile Name.isPart).length) := by
  induction u generalizing a with
  | nil => rw [nameEnd, if_neg (by simp)]; simp
  | cons c u ih =>
    obtain ⟨x, hx, hpart, -⟩ := byteAt_cons c u
    have hlt : a.byteSize < byteSize (a ++ c :: u) := by
      have := byteSize_pos (List.cons_ne_nil c u)
      rw [byteSize_append]
      omega
    rw [nameEnd, if_pos hlt, byteAt_append hx a, Checked.ok_bind, minus_of_le h, Checked.ok_bind, hpart]
    by_cases hc : Name.isPart c = true ∧ a.byteSize - first < Name.maxLength
    · obtain ⟨hp, hl⟩ := hc
      have hsize := byteSize_append_part hp a
      have hrest := ih (a ++ [c]) (by omega)
      rw [List.append_assoc, List.cons_append, List.nil_append, hsize] at hrest
      obtain ⟨k, hk⟩ : ∃ k, Name.maxLength - (a.byteSize - first) = k + 1 :=
        ⟨Name.maxLength - (a.byteSize - first) - 1, by omega⟩
      have hk' : Name.maxLength - (a.byteSize + 1 - first) = k := by omega
      rw [if_pos ⟨hp, hl⟩, hrest, hk, hk', List.take_succ_cons, List.takeWhile_cons_of_pos hp,
        List.length_cons]
      congr 1
      omega
    · rw [if_neg hc]
      have hnone : ((c :: u).take (Name.maxLength - (a.byteSize - first))).takeWhile Name.isPart = [] := by
        rcases Decidable.not_and_iff_not_or_not.mp hc with hp | hl
        · cases Name.maxLength - (a.byteSize - first) <;> simp [hp]
        · rw [Nat.sub_eq_zero_of_le (Nat.le_of_not_lt hl)]
          rfl
      rw [hnone]
      rfl

theorem run_cons {c : Char} (hc : Name.isPart c = true) (t : Text) :
    Name.run (c :: t) = c :: (t.take (Name.maxLength - 1)).takeWhile Name.isPart := by
  rw [Name.run, Name.maxLength, List.take_succ_cons, List.takeWhile_cons_of_pos hc]

theorem nameEnd_run (a : Text) {c : Char} (hs : Name.isStart c = true) (u : Text) :
    nameEnd (a ++ c :: u) a.byteSize (a.byteSize + 1) =
      .ok (a.byteSize + byteSize (Name.run (c :: u))) := by
  have hp := Name.isPart_of_isStart hs
  have hsize := byteSize_append_part hp a
  have hrun : byteSize (Name.run (c :: u)) =
      1 + ((u.take (Name.maxLength - 1)).takeWhile Name.isPart).length := by
    rw [Name.byteSize_of_isValid (Name.isValid_run hs u), run_cons hp, List.length_cons, Nat.add_comm]
  have h := nameEnd_append (a ++ [c]) u (show a.byteSize ≤ _ by omega)
  rw [hsize, List.append_assoc, Nat.add_sub_cancel_left] at h
  rw [hrun, ← Nat.add_assoc]
  exact h

theorem bare_eq (a : Text) (c : Char) (u : Text) :
    bare (a ++ '$' :: c :: u) a.byteSize =
      .ok (if Name.isStart c = true then
          (.plain (Name.run (c :: u)) ('$' :: Name.run (c :: u)),
            a.byteSize + byteSize ('$' :: Name.run (c :: u)))
        else (.literal ['$'], a.byteSize + 1)) := by
  have hsigil : byteSize (a ++ ['$']) = a.byteSize + 1 := byteSize_append a ['$']
  have ht : a ++ '$' :: c :: u = (a ++ ['$']) ++ c :: u := by simp
  obtain ⟨x, hx, -, hstart⟩ := byteAt_cons c u
  have hfirst : byteAt (a ++ '$' :: c :: u) (a.byteSize + 1) = .ok x := by
    rw [ht, ← hsigil]
    exact byteAt_append hx (a ++ ['$'])
  rw [bare]
  show (byteAt _ _ >>= _) = _
  rw [hfirst, Checked.ok_bind, hstart]
  by_cases hs : Name.isStart c = true
  · have hlast : a.byteSize + 1 + byteSize (Name.run (c :: u)) =
        a.byteSize + byteSize ('$' :: Name.run (c :: u)) := Nat.add_assoc _ _ _
    have hend : nameEnd (a ++ '$' :: c :: u) (a.byteSize + 1) (a.byteSize + 1 + 1) =
        .ok (a.byteSize + 1 + byteSize (Name.run (c :: u))) := by
      rw [ht, ← hsigil]
      exact nameEnd_run (a ++ ['$']) hs u
    obtain ⟨rest, hrest⟩ : ∃ rest, Name.run (c :: u) ++ rest = c :: u := ⟨_, run_append_drop (c :: u)⟩
    have hname : slice (a ++ '$' :: c :: u) (a.byteSize + 1)
        (a.byteSize + 1 + byteSize (Name.run (c :: u))) = .ok (Name.run (c :: u)) := by
      refine slice_of_eq (b := rest) ?_ hsigil rfl
      rw [List.append_assoc, hrest, ht]
    have hraw : slice (a ++ '$' :: c :: u) a.byteSize
        (a.byteSize + 1 + byteSize (Name.run (c :: u))) = .ok ('$' :: Name.run (c :: u)) := by
      refine slice_of_eq (a := a) (b := rest) ?_ rfl hlast.symm
      rw [List.append_assoc, List.cons_append, hrest]
    rw [if_pos hs, if_pos hs, hend, Checked.ok_bind, hname, Checked.ok_bind, hraw, Checked.ok_bind, hlast]
  · rw [if_neg hs, if_neg hs]

/-! ### Braces -/

theorem closeAt_append {b : Bytes} (ho : '{'.toUInt8 ∉ b) (hc : '}'.toUInt8 ∉ b) (depth i : Nat)
    (rest : Bytes) : closeAt depth i (b ++ rest) = closeAt depth (i + b.length) rest := by
  induction b generalizing i with
  | nil => rfl
  | cons x b ih =>
    simp only [List.mem_cons, not_or] at ho hc
    rw [List.cons_append, closeAt, if_neg (Ne.symm ho.1), if_neg (Ne.symm hc.1), ih ho.2 hc.2,
      List.length_cons, Nat.add_assoc, Nat.add_comm 1]

theorem closing_cons_place {d e : Nat} {c : Char} (h : [c].count '{' + d = [c].count '}' + e)
    (t : Text) (i : Nat) :
    (closing d (c :: t)).map (fun r => i + r.1.byteSize) =
      (closing e t).map fun r => i + c.utf8Size + r.1.byteSize := by
  rw [closing_cons h, Option.map_map]
  simp [Function.comp_def, Nat.add_assoc]

/-- The braces are counted from the first one, which is open, and the count is never taken below zero. -/
theorem closeAt_encode (d i : Nat) (u : Text) :
    closeAt (d + 1) i (Utf8.encode u) = .ok ((closing d u).map fun r => i + r.1.byteSize) := by
  induction u generalizing d i with
  | nil => rfl
  | cons c u ih =>
    rw [Utf8.encode_cons]
    by_cases ho : c = '{'
    · subst ho
      rw [closing_cons_place (e := d + 1) (by simp; omega), Utf8.encodeChar_of_isAscii (by decide)]
      exact ih (d + 1) (i + 1)
    · by_cases hc : c = '}'
      · subst hc
        rw [Utf8.encodeChar_of_isAscii (by decide), List.cons_append, closeAt, if_neg (by decide),
          if_pos rfl, minus_of_le (Nat.le_add_left 1 d), Checked.ok_bind, Nat.add_sub_cancel]
        cases d with
        | zero => simp
        | succ d =>
          rw [closing_cons_place (e := d) (by simp; omega), if_neg (Nat.succ_ne_zero d)]
          exact ih d (i + 1)
      · have ho' : '{'.toUInt8 ∉ String.utf8EncodeChar c := fun h =>
          ho ((Utf8.mem_encodeChar_iff (by decide)).mp h).symm
        have hc' : '}'.toUInt8 ∉ String.utf8EncodeChar c := fun h =>
          hc ((Utf8.mem_encodeChar_iff (by decide)).mp h).symm
        rw [closing_cons_place (e := d) (by simp [ho, hc]), closeAt_append ho' hc', ih,
          String.length_utf8EncodeChar]

theorem closeAt_opening (a u : Text) :
    closeAt 0 (a.byteSize + 1) ((Utf8.encode (a ++ '$' :: '{' :: u)).drop (a.byteSize + 1)) =
      .ok ((closing 0 u).map fun r => a.byteSize + 2 + r.1.byteSize) := by
  have hsigil : a.byteSize + 1 = (Utf8.encode (a ++ ['$'])).length := by
    rw [Utf8.length_encode, byteSize_append]
    rfl
  have ht : a ++ '$' :: '{' :: u = (a ++ ['$']) ++ '{' :: u := by simp
  have hdrop : (Utf8.encode (a ++ '$' :: '{' :: u)).drop (a.byteSize + 1) =
      '{'.toUInt8 :: Utf8.encode u := by
    rw [ht, Utf8.encode_append, hsigil, List.drop_left]
    rfl
  rw [hdrop, closeAt, if_pos rfl]
  exact closeAt_encode 0 (a.byteSize + 1 + 1) u

theorem braced_of_unclosed {u : Text} (h : closing 0 u = none) (a : Text) :
    braced (a ++ '$' :: '{' :: u) a.byteSize = .ok none := by
  have hclose := closeAt_opening a u
  rw [h] at hclose
  rw [braced]
  show (closeAt _ _ _ >>= _) = _
  rw [hclose]
  rfl

theorem segmentOf_eq (content : Text) :
    segmentOf (inBraces content) content = .ok (ofContent content) := by
  rw [segmentOf, ofContent, Operator.place?_eq_split?]
  cases hs : Operator.split? content with
  | none => rfl
  | some r =>
    obtain ⟨name, op, operand⟩ := r
    have he := Operator.eq_of_split? hs
    have htoken : byteSize op.token = 2 := by cases op <;> rfl
    have hname : slice content 0 name.byteSize = .ok name := by
      refine slice_of_eq (a := []) (b := op.token ++ operand) ?_ rfl (Nat.zero_add _)
      rw [List.nil_append, ← List.append_assoc]
      exact he
    have hoperand : slice content (name.byteSize + 2) content.byteSize = .ok operand := by
      refine slice_of_eq (a := name ++ op.token) (b := []) (by rw [List.append_nil]; exact he) ?_ ?_
      · rw [byteSize_append, htoken]
      · rw [he, byteSize_append, byteSize_append, htoken]
    show (slice content 0 name.byteSize >>= _) = Except.ok (if Name.isValid name = true then _ else _)
    rw [hname, Checked.ok_bind]
    by_cases hn : Name.isValid name = true
    · rw [if_pos hn, if_pos hn, hoperand]
      rfl
    · rw [if_neg hn, if_neg hn]

theorem byteSize_inBraces (content : Text) : (inBraces content).byteSize = content.byteSize + 3 := by
  show 1 + (1 + byteSize (content ++ ['}'])) = _
  rw [byteSize_append]
  show 1 + (1 + (content.byteSize + 1)) = _
  omega

theorem braced_of_closed {u content rest : Text} (h : closing 0 u = some (content, rest)) (a : Text) :
    braced (a ++ '$' :: '{' :: u) a.byteSize =
      .ok (some (ofContent content, a.byteSize + (inBraces content).byteSize)) := by
  have hclose := closeAt_opening a u
  obtain rfl := closing_eq_some h
  rw [h] at hclose
  have hsize := byteSize_inBraces content
  have hraw : slice (a ++ '$' :: '{' :: (content ++ '}' :: rest)) a.byteSize
      (a.byteSize + 2 + content.byteSize + 1) = .ok (inBraces content) := by
    refine slice_of_eq (a := a) (b := rest) ?_ rfl (by omega)
    rw [List.append_assoc, inBraces_append]
  have hcontent : slice (a ++ '$' :: '{' :: (content ++ '}' :: rest)) (a.byteSize + 2)
      (a.byteSize + 2 + content.byteSize) = .ok content := by
    refine slice_of_eq (a := a ++ ['$', '{']) (b := '}' :: rest) (by simp) ?_ rfl
    rw [byteSize_append]
    rfl
  have hlast : a.byteSize + 2 + content.byteSize + 1 = a.byteSize + (inBraces content).byteSize := by
    omega
  rw [braced]
  show (closeAt _ _ _ >>= _) = _
  rw [hclose, Checked.ok_bind]
  show (slice _ _ _ >>= _) = _
  rw [hraw, Checked.ok_bind]
  show (slice _ (a.byteSize + 2) (a.byteSize + 2 + content.byteSize) >>= _) = _
  rw [hcontent, Checked.ok_bind, segmentOf_eq, Checked.ok_bind, hlast]

/-! ### Segments -/

theorem placeholder_eq (a u : Text) :
    placeholder (a ++ '$' :: u) a.byteSize =
      .ok ((read ('$' :: u)).map fun r => (r.1, a.byteSize + r.1.source.byteSize)) := by
  have hbyte : (Utf8.encode (a ++ '$' :: u))[a.byteSize + 1]? = (Utf8.encode u)[0]? :=
    Utf8.getElem?_encode_append a ('$' :: u) 1
  rw [placeholder, hbyte]
  cases u with
  | nil =>
    rw [byteSize_append]
    rfl
  | cons c u =>
    by_cases hc : c = '{'
    · subst hc
      show braced _ _ = _
      rw [read_braces]
      cases hcl : closing 0 u with
      | none => exact braced_of_unclosed hcl a
      | some r =>
        rw [braced_of_closed hcl a]
        show _ = Except.ok (some (_, a.byteSize + (ofContent r.1).source.byteSize))
        rw [source_ofContent]
    · obtain ⟨x, b, hx, -⟩ := exists_encodeChar_eq c
      have hbrace : x ≠ '{'.toUInt8 := by
        rintro rfl
        exact hc ((Utf8.mem_encodeChar_iff (by decide)).mp (hx ▸ List.mem_cons_self)).symm
      rw [Utf8.encode_cons, hx, read_sigil_cons hc]
      show (if x = '{'.toUInt8 then _ else bare _ _ >>= _) = _
      rw [if_neg hbrace, bare_eq, Checked.ok_bind]
      by_cases hs : Name.isStart c = true
      · rw [if_pos hs, if_pos hs]
        rfl
      · rw [if_neg hs, if_neg hs]
        rfl

theorem next_of_rest {u : Text} (hu : u ≠ []) (a : Text) :
    next (a ++ u) ⟨a.byteSize, false⟩ =
      segmentAt (a ++ u) u a.byteSize ((u.splitAt? '$').map fun r => r.1.byteSize) := by
  have hlt : ¬byteSize (a ++ u) ≤ a.byteSize := by
    have := byteSize_pos hu
    rw [byteSize_append]
    omega
  have hslice : slice (a ++ u) a.byteSize (byteSize (a ++ u)) = .ok u :=
    slice_of_eq (b := []) (by rw [List.append_nil]) rfl (byteSize_append a u).symm
  rw [next, if_neg (by simpa using hlt), hslice, Checked.ok_bind, Utf8.findIdx?_encode (by decide)]

theorem next_of_text (a : Text) {p r : Text} (hp : p ≠ []) (hs : '$' ∉ p)
    (hr : ∀ c ∈ r.head?, c = '$') :
    next (a ++ (p ++ r)) ⟨a.byteSize, false⟩ =
      .ok (some (.ok (.literal p)), ⟨a.byteSize + p.byteSize, false⟩) := by
  rw [next_of_rest (List.append_ne_nil_of_left_ne_nil hp r)]
  cases r with
  | nil =>
    rw [List.append_nil, splitAt?_eq_none hs, ← byteSize_append]
    rfl
  | cons c r =>
    obtain rfl := hr c rfl
    obtain ⟨n, hn⟩ := Nat.exists_eq_succ_of_ne_zero (Nat.ne_of_gt (byteSize_pos hp))
    have hslice : slice (p ++ '$' :: r) 0 (n + 1) = .ok p :=
      slice_of_eq (a := []) rfl rfl (by omega)
    rw [splitAt?_append_cons hs, Option.map_some, hn]
    show (slice _ _ _ >>= _) = _
    rw [hslice]
    rfl

theorem next_of_sigil (a u : Text) :
    next (a ++ '$' :: u) ⟨a.byteSize, false⟩ =
      match read ('$' :: u) with
      | none => .ok (some (.error ⟨a.byteSize⟩), ⟨a.byteSize, true⟩)
      | some (g, _) => .ok (some (.ok g), ⟨a.byteSize + g.source.byteSize, false⟩) := by
  rw [next_of_rest (List.cons_ne_nil '$' u), splitAt?, if_pos rfl]
  show (placeholder _ _ >>= _) = _
  rw [placeholder_eq, Checked.ok_bind]
  cases read ('$' :: u) <;> rfl

end Bytewise
end EnvTemplate
