import EnvTemplate.Segment

/-!
Splitting a template into segments, from left to right.  `Segment.read` takes one segment off a
text, `Cursor.next` does so at a position, and `scan` collects the segments of a whole template.

Nothing is lost and nothing is looked at twice: a segment read from a text is not empty, and its
source followed by the rest is the text (`Segment.read_source`, `Segment.read_ne_nil`).
-/
namespace EnvTemplate
namespace Segment

/-- Splits a text behind an opening brace at the brace that closes it.  `depth` counts the braces
opened inside. -/
def closing (depth : Nat) : Text → Option (Text × Text)
  | [] => none
  | c :: t =>
    if c = '}' then
      match depth with
      | 0 => some ([], t)
      | d + 1 => (closing d t).map fun (a, b) => (c :: a, b)
    else
      (closing (if c = '{' then depth + 1 else depth) t).map fun (a, b) => (c :: a, b)

theorem closing_eq_some {d : Nat} {t a b : Text} (h : closing d t = some (a, b)) :
    t = a ++ '}' :: b := by
  induction t generalizing d a with
  | nil => simp [closing] at h
  | cons c t ih =>
    unfold closing at h
    split at h
    · split at h
      · simp only [Option.some.injEq, Prod.mk.injEq] at h
        obtain ⟨rfl, rfl⟩ := h
        simp_all
      · simp only [Option.map_eq_some_iff, Prod.exists, Prod.mk.injEq] at h
        obtain ⟨a', b', h', rfl, rfl⟩ := h
        simp [ih h']
    · simp only [Option.map_eq_some_iff, Prod.exists, Prod.mk.injEq] at h
      obtain ⟨a', b', h', rfl, rfl⟩ := h
      simp [ih h']

/-- Takes the first segment off a text that is not empty; `none` if the text begins with `${` and
no brace closes it. -/
def read : Text → Option (Segment × Text)
  | '$' :: '{' :: t => (closing 0 t).map fun (content, rest) => (ofContent content, rest)
  | '$' :: c :: t =>
    if Name.isStart c then
      let name := Name.run (c :: t)
      some (plain name ('$' :: name), (c :: t).drop name.length)
    else some (literal ['$'], c :: t)
  | ['$'] => some (literal ['$'], [])
  | t => some (literal (t.takeWhile (· != '$')), t.dropWhile (· != '$'))

theorem source_ofContent (content : Text) : (ofContent content).source = inBraces content := by
  unfold ofContent
  split
  · next h =>
    split
    · rw [source, ← Operator.eq_of_split? h]
    · rfl
  · split <;> rfl

theorem run_append_drop (t : Text) : Name.run t ++ t.drop (Name.run t).length = t := by
  have h : Name.run t <+: t :=
    (List.takeWhile_prefix _).trans (List.take_prefix _ _)
  obtain ⟨u, hu⟩ := h
  have hd : t.drop (Name.run t).length = u := by
    conv => lhs; arg 2; rw [← hu]
    simp
  rw [hd, hu]

/-- The source of the first segment and the rest make up the text. -/
theorem read_source {t rest : Text} {g : Segment} (h : read t = some (g, rest)) :
    g.source ++ rest = t := by
  unfold read at h
  split at h
  · simp only [Option.map_eq_some_iff, Prod.exists, Prod.mk.injEq] at h
    obtain ⟨content, r, h', rfl, rfl⟩ := h
    simp [source_ofContent, inBraces, closing_eq_some h']
  · split at h
    · simp only [Option.some.injEq, Prod.mk.injEq] at h
      obtain ⟨rfl, rfl⟩ := h
      simp [source, run_append_drop]
    · simp only [Option.some.injEq, Prod.mk.injEq] at h
      obtain ⟨rfl, rfl⟩ := h
      rfl
  · simp only [Option.some.injEq, Prod.mk.injEq] at h
    obtain ⟨rfl, rfl⟩ := h
    rfl
  · simp only [Option.some.injEq, Prod.mk.injEq] at h
    obtain ⟨rfl, rfl⟩ := h
    simp [source]

theorem read_ne_nil {t rest : Text} {g : Segment} (ht : t ≠ []) (h : read t = some (g, rest)) :
    g.source ≠ [] := by
  unfold read at h
  split at h
  · simp only [Option.map_eq_some_iff, Prod.exists, Prod.mk.injEq] at h
    obtain ⟨content, r, h', rfl, rfl⟩ := h
    simp [source_ofContent, inBraces]
  · split at h
    · simp only [Option.some.injEq, Prod.mk.injEq] at h
      obtain ⟨rfl, rfl⟩ := h
      simp [source]
    · simp only [Option.some.injEq, Prod.mk.injEq] at h
      obtain ⟨rfl, rfl⟩ := h
      simp [source]
  · simp only [Option.some.injEq, Prod.mk.injEq] at h
    obtain ⟨rfl, rfl⟩ := h
    simp [source]
  · next h1 h2 h3 =>
    simp only [Option.some.injEq, Prod.mk.injEq] at h
    obtain ⟨rfl, rfl⟩ := h
    cases t with
    | nil => exact absurd rfl ht
    | cons c t =>
      have hc : c ≠ '$' := by
        rintro rfl
        cases t with
        | nil => exact h3 rfl
        | cons d t => exact h2 d t rfl
      simp [source, hc]

end Segment

/-- A braced placeholder without its closing brace, at the byte offset of its `$`. -/
structure UnclosedBrace where
  offset : Nat
  deriving DecidableEq

/-- A position in a template: what is left of it, the number of bytes before, and whether an
unclosed brace was met. -/
structure Cursor where
  rest : Text
  pos : Nat
  failed : Bool
  deriving DecidableEq

namespace Cursor

def start (template : Text) : Cursor := ⟨template, 0, false⟩

/-- The next segment, if any, and the cursor behind it.  After an unclosed brace nothing follows. -/
def next (s : Cursor) : Option (Except UnclosedBrace Segment) × Cursor :=
  if s.failed || s.rest.isEmpty then (none, s)
  else
    match Segment.read s.rest with
    | none => (some (.error ⟨s.pos⟩), { s with failed := true })
    | some (g, rest) => (some (.ok g), { s with rest, pos := s.pos + g.source.byteSize })

end Cursor

structure Scan where
  segments : List Segment
  unclosed : Option UnclosedBrace
  deriving DecidableEq

namespace Scan

def shift (size : Nat) (s : Scan) : Scan :=
  { s with unclosed := s.unclosed.map fun e => ⟨size + e.offset⟩ }

def cons (g : Segment) (s : Scan) : Scan := { s with segments := g :: s.segments }

end Scan

namespace Cursor

def collect : Nat → Cursor → Scan × Cursor
  | 0, s => (⟨[], none⟩, s)
  | n + 1, s =>
    match s.next with
    | (none, s') => (⟨[], none⟩, s')
    | (some (.error e), s') => (⟨[], some e⟩, s')
    | (some (.ok g), s') =>
      let (r, last) := collect n s'
      (r.cons g, last)

end Cursor

/-- The segments of a template and the cursor after its last one.  Every segment takes at least one
character, so a template has at most as many segments as characters. -/
def scanToEnd (template : Text) : Scan × Cursor :=
  (Cursor.start template).collect template.length

def scan (template : Text) : Scan := (scanToEnd template).1

namespace Cursor

theorem collect_pos (n : Nat) (t : Text) (pos : Nat) :
    (collect n ⟨t, pos, false⟩).1 = (collect n ⟨t, 0, false⟩).1.shift pos := by
  induction n generalizing t pos with
  | zero => rfl
  | succ n ih =>
    cases t with
    | nil => rfl
    | cons c t =>
      cases h : Segment.read (c :: t) with
      | none => simp [collect, next, h, Scan.shift]
      | some r =>
        obtain ⟨g, rest⟩ := r
        have h1 := ih rest (pos + g.source.byteSize)
        have h2 := ih rest (0 + g.source.byteSize)
        simp only [collect, next, h, List.isEmpty_cons, Bool.or_false, Bool.false_eq_true, if_false,
          h1, h2]
        simp [Scan.shift, Scan.cons, Option.map_map, Function.comp_def, Nat.add_assoc]

/-- More calls than there are characters find nothing more. -/
theorem collect_enough {n : Nat} {t : Text} (hn : t.length ≤ n) :
    (collect n ⟨t, 0, false⟩).1 = scan t := by
  suffices key : ∀ (n m : Nat) (t : Text) (pos : Nat), t.length ≤ n → t.length ≤ m →
      (collect n ⟨t, pos, false⟩).1 = (collect m ⟨t, pos, false⟩).1 from
    key n t.length t 0 hn (Nat.le_refl _)
  intro n
  induction n with
  | zero =>
    intro m t pos hn _
    have ht : t = [] := List.eq_nil_of_length_eq_zero (by omega)
    subst ht
    cases m <;> rfl
  | succ n ih =>
    intro m t pos hn hm
    cases t with
    | nil => cases m <;> rfl
    | cons c t =>
      cases m with
      | zero => simp at hm
      | succ m =>
        cases h : Segment.read (c :: t) with
        | none => simp [collect, next, h]
        | some r =>
          obtain ⟨g, rest⟩ := r
          have hs := Segment.read_source h
          have hg := Segment.read_ne_nil (List.cons_ne_nil c t) h
          have hl : rest.length < (c :: t).length := by
            rw [← hs, List.length_append]
            have := List.length_pos_iff.2 hg
            omega
          have := ih m rest (pos + g.source.byteSize) (by omega) (by omega)
          simp only [collect, next, h, List.isEmpty_cons, Bool.or_false, Bool.false_eq_true,
            if_false, this]

end Cursor

@[simp] theorem scan_nil : scan [] = ⟨[], none⟩ := rfl

theorem scan_of_read {t rest : Text} {g : Segment} (ht : t ≠ [])
    (h : Segment.read t = some (g, rest)) :
    scan t = ((scan rest).shift g.source.byteSize).cons g := by
  obtain ⟨n, hn⟩ : ∃ n, t.length = n + 1 :=
    ⟨t.length - 1, by have := List.length_pos_iff.2 ht; omega⟩
  have hs := congrArg List.length (Segment.read_source h)
  have hg := List.length_pos_iff.2 (Segment.read_ne_nil ht h)
  rw [List.length_append] at hs
  have he : t.isEmpty = false := by simpa using ht
  have hc : (Cursor.collect n ⟨rest, 0, false⟩).1 = scan rest :=
    Cursor.collect_enough (by omega)
  have hp := Cursor.collect_pos n rest g.source.byteSize
  change (Cursor.collect t.length ⟨t, 0, false⟩).1 = _
  rw [hn, ← hc, ← hp]
  simp [Cursor.collect, Cursor.next, h, he]

theorem scan_of_unclosed {t : Text} (ht : t ≠ []) (h : Segment.read t = none) :
    scan t = ⟨[], some ⟨0⟩⟩ := by
  obtain ⟨n, hn⟩ : ∃ n, t.length = n + 1 :=
    ⟨t.length - 1, by have := List.length_pos_iff.2 ht; omega⟩
  have he : t.isEmpty = false := by simpa using ht
  unfold scan scanToEnd Cursor.start
  rw [hn]
  simp [Cursor.collect, Cursor.next, h, he]

end EnvTemplate
