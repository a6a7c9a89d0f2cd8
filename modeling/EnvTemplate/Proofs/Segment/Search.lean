import EnvTemplate.Proofs.Segment.Token
import EnvTemplate.Proofs.Text.Bytes

/-! The search for an operator token, with places counted in bytes.  Four searches, one for each token, and
the least of what they find come to the same as one walk over the bytes that stops at the first token. -/
namespace EnvTemplate

namespace Text

theorem byteSize_le_byteSize_iff {a b t : Text} (ha : a <+: t) (hb : b <+: t) :
    a.byteSize ≤ b.byteSize ↔ a.length ≤ b.length := by
  constructor
  · intro h
    apply Nat.le_of_not_lt
    intro hl
    obtain ⟨u, rfl⟩ := List.prefix_of_prefix_length_le hb ha (Nat.le_of_lt hl)
    rw [List.length_append] at hl
    have hu : u ≠ [] := by rintro rfl; simp at hl
    have hpos := byteSize_pos hu
    rw [byteSize_append] at h
    omega
  · intro h
    obtain ⟨u, rfl⟩ := List.prefix_of_prefix_length_le ha hb h
    rw [byteSize_append]
    exact Nat.le_add_right _ _

end Text

namespace Operator

open Text

def StandsAt (b : Bytes) (i : Nat) (op : Operator) : Prop :=
  b[i]? = some ':'.toUInt8 ∧ b[i + 1]? = some op.sign.toUInt8

def ofByte? (x : UInt8) : Option Operator := all.find? fun op => op.sign.toUInt8 == x

def atHead? : Bytes → Option Operator
  | x :: y :: _ => if x = ':'.toUInt8 then ofByte? y else none
  | _ => none

/-- The first token that a walk over bytes comes to, and its place. -/
def firstToken? : Bytes → Option (Nat × Operator)
  | [] => none
  | x :: b =>
    match atHead? (x :: b) with
    | some op => some (0, op)
    | none => (firstToken? b).map fun (i, op) => (i + 1, op)

theorem ofByte?_eq_some_iff {x : UInt8} {op : Operator} :
    ofByte? x = some op ↔ x = op.sign.toUInt8 := by
  constructor
  · intro h
    have hb := List.find?_some (p := fun op : Operator => op.sign.toUInt8 == x) h
    exact (eq_of_beq hb).symm
  · rintro rfl
    cases op <;> decide

theorem atHead?_eq_some_iff {b : Bytes} {op : Operator} : atHead? b = some op ↔ StandsAt b 0 op := by
  rcases b with _ | ⟨x, _ | ⟨y, b⟩⟩
  · simp [atHead?, StandsAt]
  · simp [atHead?, StandsAt]
  · simp [atHead?, StandsAt, ofByte?_eq_some_iff]

theorem StandsAt.unique {b : Bytes} {i : Nat} {op o : Operator} (h : StandsAt b i op)
    (h' : StandsAt b i o) : op = o := by
  have hs : ofByte? op.sign.toUInt8 = some o :=
    ofByte?_eq_some_iff.mpr (Option.some.inj (h.2.symm.trans h'.2))
  rw [ofByte?_eq_some_iff.mpr rfl] at hs
  exact Option.some.inj hs

theorem firstToken?_eq_some_iff {b : Bytes} {i : Nat} {op : Operator} :
    firstToken? b = some (i, op) ↔ StandsAt b i op ∧ ∀ j < i, ∀ o, ¬StandsAt b j o := by
  induction b generalizing i with
  | nil => simp [firstToken?, StandsAt]
  | cons x b ih =>
    rw [firstToken?]
    cases hh : atHead? (x :: b) with
    | some p =>
      have hp := atHead?_eq_some_iff.mp hh
      constructor
      · intro h
        obtain ⟨rfl, rfl⟩ := Prod.mk.inj (Option.some.inj h)
        exact ⟨hp, fun j hj => absurd hj (Nat.not_lt_zero j)⟩
      · rintro ⟨hi, hbefore⟩
        cases i with
        | zero => rw [hp.unique hi]
        | succ i => exact absurd hp (hbefore 0 (Nat.succ_pos i) p)
    | none =>
      have hnone : ∀ o, ¬StandsAt (x :: b) 0 o := by
        intro o ho
        rw [atHead?_eq_some_iff.mpr ho] at hh
        cases hh
      constructor
      · intro h
        obtain ⟨⟨k, o⟩, hk, he⟩ := Option.map_eq_some_iff.mp h
        obtain ⟨rfl, rfl⟩ := Prod.mk.inj he
        obtain ⟨hs, hbefore⟩ := ih.mp hk
        refine ⟨hs, fun j hj => ?_⟩
        cases j with
        | zero => exact hnone
        | succ j => exact hbefore j (Nat.lt_of_succ_lt_succ hj)
      · rintro ⟨hi, hbefore⟩
        cases i with
        | zero => exact absurd hi (hnone op)
        | succ i =>
          have hk := ih.mpr ⟨hi, fun j hj => hbefore (j + 1) (Nat.succ_lt_succ hj)⟩
          rw [hk, Option.map_some]

theorem firstToken?_eq_none_iff {b : Bytes} :
    firstToken? b = none ↔ ∀ i op, ¬StandsAt b i op := by
  induction b with
  | nil => simp [firstToken?, StandsAt]
  | cons x b ih =>
    rw [firstToken?]
    cases hh : atHead? (x :: b) with
    | some p => exact iff_of_false nofun fun h => h 0 p (atHead?_eq_some_iff.mp hh)
    | none =>
      rw [Option.map_eq_none_iff, ih]
      constructor
      · intro h i op hi
        cases i with
        | zero => rw [atHead?_eq_some_iff.mpr hi] at hh; cases hh
        | succ i => exact h i op hi
      · exact fun h i => h (i + 1)

theorem isAscii_sign (op : Operator) : Utf8.IsAscii op.sign := by cases op <;> decide

theorem standsAt_encode_iff {c : Text} {i : Nat} {op : Operator} :
    StandsAt (Utf8.encode c) i op ↔ ∃ n w, c = n ++ op.token ++ w ∧ n.byteSize = i := by
  constructor
  · rintro ⟨hcolon, hsign⟩
    obtain ⟨n, r, rfl, rfl⟩ := Utf8.exists_of_getElem?_encode (by decide) hcolon
    have hfirst : (Utf8.encode r)[0]? = some op.sign.toUInt8 := by
      rw [Utf8.getElem?_encode_append] at hsign
      simpa [Utf8.encode_cons, Utf8.encodeChar_of_isAscii (x := ':') (by decide)] using hsign
    obtain ⟨e, w, rfl, he⟩ := Utf8.exists_of_getElem?_encode (isAscii_sign op) hfirst
    have hl := length_le_byteSize e
    rw [he] at hl
    obtain rfl := List.eq_nil_of_length_eq_zero (Nat.le_zero.mp hl)
    exact ⟨n, w, by simp [token], rfl⟩
  · rintro ⟨n, w, rfl, rfl⟩
    have htoken : Utf8.encode op.token = [':'.toUInt8, op.sign.toUInt8] := by
      rw [token, Utf8.encode_cons, Utf8.encode_cons, Utf8.encodeChar_of_isAscii (by decide),
        Utf8.encodeChar_of_isAscii (isAscii_sign op)]
      rfl
    have hbytes : ∀ k, (Utf8.encode (n ++ op.token ++ w))[n.byteSize + k]? =
        (':'.toUInt8 :: op.sign.toUInt8 :: Utf8.encode w)[k]? := by
      intro k
      rw [List.append_assoc, Utf8.getElem?_encode_append, Utf8.encode_append, htoken]
      rfl
    exact ⟨hbytes 0, hbytes 1⟩

theorem firstToken?_of_isLeftmost {c n w : Text} {op : Operator} (h : IsLeftmost c n op w) :
    firstToken? (Utf8.encode c) = some (n.byteSize, op) := by
  refine firstToken?_eq_some_iff.mpr ⟨standsAt_encode_iff.mpr ⟨n, w, h.eq, rfl⟩, ?_⟩
  intro j hj o ho
  obtain ⟨m, v, hm, rfl⟩ := standsAt_encode_iff.mp ho
  have hn : n <+: c := ⟨op.token ++ w, by rw [← List.append_assoc]; exact h.eq.symm⟩
  have hp : m <+: c := ⟨o.token ++ v, by rw [← List.append_assoc]; exact hm.symm⟩
  have hle := (byteSize_le_byteSize_iff hn hp).mpr (h.le m o v hm)
  exact Nat.not_lt.mpr hle hj

theorem firstToken?_of_hasNone {c : Text} (h : HasNone c) : firstToken? (Utf8.encode c) = none := by
  refine firstToken?_eq_none_iff.mpr fun i op hs => ?_
  obtain ⟨n, w, hc, -⟩ := standsAt_encode_iff.mp hs
  exact h n op w hc

/-- The place of the leftmost operator token in bytes, and its operator. -/
def place? (content : Text) : Option (Nat × Operator) :=
  (find? content).map fun (i, op) => (byteSize (content.take i), op)

theorem place?_eq_split? (c : Text) :
    place? c = (split? c).map fun (name, op, _) => (name.byteSize, op) := by
  rw [place?, split?, Option.map_map]
  rfl

theorem place?_eq_firstToken? (c : Text) : place? c = firstToken? (Utf8.encode c) := by
  rw [place?_eq_split?]
  cases hs : split? c with
  | none => rw [firstToken?_of_hasNone (split?_eq_none_iff.mp hs)]; rfl
  | some r => rw [firstToken?_of_isLeftmost (isLeftmost_of_split? hs)]; rfl

/-! ### The four searches -/

/-- The first places in bytes of the tokens of some operators. -/
def places (ops : List Operator) (content : Text) : List (Nat × Operator) :=
  ops.filterMap fun op =>
    (Text.indexOf? op.token content).map fun i => (byteSize (content.take i), op)

theorem indexOf?_token_injective {c : Text} {i : Nat} {op o : Operator}
    (h : Text.indexOf? op.token c = some i) (h' : Text.indexOf? o.token c = some i) : op = o := by
  have he := (Text.indexOf?_eq_some h).symm.trans (Text.indexOf?_eq_some h')
  rw [List.append_assoc, List.append_assoc] at he
  have ht := List.append_cancel_left he
  simp only [token, List.cons_append, List.nil_append, List.cons.injEq, true_and] at ht
  exact sign_injective ht.1

theorem indexOf?_token_le {c : Text} {i : Nat} {op : Operator}
    (h : Text.indexOf? op.token c = some i) : i ≤ c.length := by
  have hl := congrArg List.length (Text.indexOf?_eq_some h)
  have ht : op.token.length = 2 := rfl
  rw [List.length_append, List.length_append, List.length_take, List.length_drop, ht] at hl
  omega

theorem mem_places_iff {ops : List Operator} {c : Text} {k : Nat} {op : Operator} :
    (k, op) ∈ places ops c ↔
      op ∈ ops ∧ ∃ i, Text.indexOf? op.token c = some i ∧ byteSize (c.take i) = k := by
  constructor
  · intro h
    obtain ⟨o, ho, he⟩ := List.mem_filterMap.mp h
    obtain ⟨i, hi, hk⟩ := Option.map_eq_some_iff.mp he
    obtain ⟨rfl, rfl⟩ := Prod.mk.inj hk
    exact ⟨ho, i, hi, rfl⟩
  · rintro ⟨ho, i, hi, rfl⟩
    exact List.mem_filterMap.mpr ⟨op, ho, by rw [hi]; rfl⟩

theorem minOn?_eq_of_least {l : List (Nat × Operator)} {x : Nat × Operator} (hx : x ∈ l)
    (hle : ∀ y ∈ l, x.1 ≤ y.1) (hu : ∀ y ∈ l, y.1 = x.1 → y = x) : l.minOn? Prod.fst = some x := by
  obtain ⟨y, hy⟩ := Option.isSome_iff_exists.mp (List.isSome_minOn?_of_mem (f := Prod.fst) hx)
  have hm := List.minOn?_mem hy
  have hyx := List.apply_get_minOn?_le_of_mem (f := Prod.fst) hx
  rw [Option.get_of_eq_some _ hy] at hyx
  rw [hy, hu y hm (Nat.le_antisymm hyx (hle y hm))]

/-- In which order the tokens are searched for does not matter, because no two of them stand at one
place. -/
theorem minOn?_places {ops : List Operator} (hops : ∀ op, op ∈ ops) (c : Text) :
    (places ops c).minOn? Prod.fst = place? c := by
  cases hf : find? c with
  | none =>
    have hempty : places ops c = [] := by
      rw [places, List.filterMap_eq_nil_iff]
      intro o _
      rw [find?_eq_none_iff.mp hf o]
      rfl
    rw [hempty, place?, hf]
    rfl
  | some r =>
    obtain ⟨i, op⟩ := r
    have hi := indexOf?_of_find? hf
    have hplace : place? c = some (byteSize (c.take i), op) := by rw [place?, hf]; rfl
    rw [hplace]
    apply minOn?_eq_of_least
    · exact mem_places_iff.mpr ⟨hops op, i, hi, rfl⟩
    · rintro ⟨k, o⟩ hm
      obtain ⟨-, j, hj, rfl⟩ := mem_places_iff.mp hm
      show byteSize (c.take i) ≤ byteSize (c.take j)
      apply (byteSize_le_byteSize_iff (List.take_prefix i c) (List.take_prefix j c)).mpr
      have hij := find?_le hf hj
      rw [List.length_take, List.length_take]
      omega
    · rintro ⟨k, o⟩ hm hk
      obtain ⟨-, j, hj, rfl⟩ := mem_places_iff.mp hm
      have hle := (byteSize_le_byteSize_iff (List.take_prefix j c) (List.take_prefix i c)).mp
        (Nat.le_of_eq hk)
      have hij := find?_le hf hj
      have hlen := indexOf?_token_le hj
      rw [List.length_take, List.length_take] at hle
      obtain rfl : j = i := by omega
      rw [indexOf?_token_injective hj hi]

theorem colon_not_before {c name rest : Text} {i : Nat} (hs : splitBytes? i c = some (name, rest))
    (hn : Name.isValid name = true) {j : Nat} (hj : j < i) :
    (Utf8.encode c)[j]? ≠ some ':'.toUInt8 := by
  intro hc
  obtain ⟨rfl, rfl⟩ := splitBytes?_eq_some hs
  rw [Utf8.encode_append, List.getElem?_append_left (by rw [Utf8.length_encode]; exact hj)] at hc
  obtain ⟨a, b, rfl, -⟩ := Utf8.exists_of_getElem?_encode (by decide) hc
  exact Name.not_mem_of_isValid hn (by decide) (List.mem_append_right a List.mem_cons_self)

/-- The search for an operator is a search for the leftmost token.  It comes to what one walk over the bytes
finds, where the first token stands, and to nothing if there is none.  No two tokens are found at one place,
so the search does not depend on the order of the operators; and a token behind a name begins with the first
colon. -/
theorem search_finds_first_token (c : Text) :
    place? c = firstToken? (Utf8.encode c) ∧
      (∀ i op, place? c = some (i, op) ↔
        StandsAt (Utf8.encode c) i op ∧ ∀ j < i, ∀ o, ¬StandsAt (Utf8.encode c) j o) ∧
      (place? c = none ↔ ∀ i op, ¬StandsAt (Utf8.encode c) i op) ∧
      (∀ (op o : Operator) (i : Nat), Text.indexOf? op.token c = some i →
        Text.indexOf? o.token c = some i → op = o) ∧
      (∀ ops : List Operator, (∀ op, op ∈ ops) → (places ops c).minOn? Prod.fst = place? c) ∧
      ∀ i op name rest, place? c = some (i, op) → splitBytes? i c = some (name, rest) →
        Name.isValid name = true →
          (Utf8.encode c)[i]? = some ':'.toUInt8 ∧ ∀ j < i, (Utf8.encode c)[j]? ≠ some ':'.toUInt8 := by
  have hfirst := place?_eq_firstToken? c
  refine ⟨hfirst, fun i op => ?_, ?_, fun op o i => indexOf?_token_injective,
    fun ops hops => minOn?_places hops c, fun i op name rest hi hs hn => ⟨?_, ?_⟩⟩
  · rw [hfirst]
    exact firstToken?_eq_some_iff
  · rw [hfirst]
    exact firstToken?_eq_none_iff
  · rw [hfirst] at hi
    exact (firstToken?_eq_some_iff.mp hi).1.1
  · exact fun j => colon_not_before hs hn

theorem search_finds_first_token_reversed :
    let c : Text := "A:-:+é::=".toList
    let ops := all.reverse
    (∀ op, op ∈ ops) ∧ (places ops c).minOn? Prod.fst = some (1, fallback) ∧
      ∀ j < 1, (Utf8.encode c)[j]? ≠ some ':'.toUInt8 := by
  intro c ops
  have hops : ∀ op, op ∈ ops := fun op => List.mem_reverse.mpr (mem_all op)
  obtain ⟨hfirst, -, -, -, horder, hcolon⟩ := search_finds_first_token c
  have hplace : place? c = some (1, fallback) := by rw [hfirst]; decide +kernel
  refine ⟨hops, (horder ops hops).trans hplace, ?_⟩
  exact (hcolon 1 fallback ['A'] _ hplace (splitBytes?_byteSize_append ['A'] _) (by decide)).2

end Operator
end EnvTemplate
