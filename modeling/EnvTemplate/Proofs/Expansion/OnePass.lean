import EnvTemplate.Proofs.Expansion.Stepwise

/-! Expanding in one pass.  Here a cursor moves over the template, one character at a time through
text, and the output and the store change as it goes; there are no segments, and braces, names and
operators are looked for by counting characters.  It comes to the same as expanding segments. -/
namespace EnvTemplate
namespace OnePass

open Text

/-- The number of characters before the brace that brings the depth back to zero. -/
def contentLength : Nat → Text → Option Nat
  | _, [] => none
  | depth, c :: t =>
    let depth := if c = '{' then depth + 1 else if c = '}' then depth - 1 else depth
    if depth = 0 then some 0 else (contentLength depth t).map (· + 1)

def nameLength : Nat → Text → Nat
  | 0, _ => 0
  | _, [] => 0
  | limit + 1, c :: t => if Name.isPart c then nameLength limit t + 1 else 0

/-- The place of the first colon that is directly followed by the sign of an operator. -/
def tokenPlace? (content : Text) : Option Nat :=
  (List.range content.length).find? fun i =>
    content[i]? == some ':' && content[i + 1]?.any (['-', '+', '?', '='].contains ·)

def split (content : Text) : Text × Option (Char × Text) :=
  match tokenPlace? content with
  | none => (content, none)
  | some i => (content.take i, content[i + 1]?.map fun sign => (sign, content.drop (i + 2)))

variable {σ : Type} [VariableStore σ]

/-- The table of operators.  A variable without a value and one with an empty value are alike. -/
def lookUp (rule : UnsetRule) (s : σ) (name source : Text) (op : Option (Char × Text)) :
    Except ExpansionError Text × σ :=
  match (VariableStore.get? s name).getD [], op with
  | [], none => (.ok (if rule = .keep then source else []), s)
  | [], some ('-', operand) => (.ok operand, s)
  | [], some ('+', _) => (.ok [], s)
  | [], some ('?', operand) => (.error (.missing name operand), s)
  | [], some (_, operand) => (.ok operand, VariableStore.set s name operand)
  | _ :: _, some ('+', operand) => (.ok operand, s)
  | c :: v, _ => (.ok (c :: v), s)

def lookUpContent (rule : UnsetRule) (s : σ) (content : Text) : Except ExpansionError Text × σ :=
  let source := '$' :: '{' :: content ++ ['}']
  let (name, op) := split content
  if Name.isValid name then lookUp rule s name source op else (.ok source, s)

/-- Moves the cursor to the end of a template.  `pos` bytes were read and `out` was written. -/
def run (rule : UnsetRule) (t : Text) (pos : Nat) (out : Text) (s : σ) :
    Except ExpansionError Text × σ :=
  match t with
  | [] => (.ok out, s)
  | '$' :: '{' :: t =>
    match contentLength 1 t with
    | none => (.error (.unclosed ⟨pos⟩), s)
    | some n =>
      match lookUpContent rule s (t.take n) with
      | (.error e, s) => (.error e, s)
      | (.ok text, s) => run rule (t.drop (n + 1)) (pos + byteSize (t.take n) + 3) (out ++ text) s
  | '$' :: c :: t =>
    if Name.isStart c then
      let n := nameLength Name.maxLength (c :: t)
      let name := (c :: t).take n
      match lookUp rule s name ('$' :: name) none with
      | (.error e, s) => (.error e, s)
      | (.ok text, s) => run rule ((c :: t).drop n) (pos + n + 1) (out ++ text) s
    else run rule (c :: t) (pos + 1) (out ++ ['$']) s
  | c :: t => run rule t (pos + c.utf8Size) (out ++ [c]) s
termination_by t.length
decreasing_by all_goals simp only [List.length_drop, List.length_cons]; omega

/-- Expands a template in one pass. -/
def expand (rule : UnsetRule) (template : Text) (s : σ) : Except ExpansionError Text × σ :=
  run rule template 0 [] s

theorem contentLength_succ (d : Nat) (t : Text) :
    contentLength (d + 1) t = (Segment.closing d t).map fun r => r.1.length := by
  induction t generalizing d with
  | nil => rfl
  | cons c t ih =>
    rcases closes_or_leads c d with ⟨rfl, rfl⟩ | ⟨e, he⟩
    · simp [contentLength]
    · have hd : (if c = '{' then d + 1 + 1 else if c = '}' then d + 1 - 1 else d + 1) = e + 1 := by
        by_cases ho : c = '{'
        · simp [ho] at he ⊢
          omega
        · by_cases hc : c = '}'
          · simp [hc] at he ⊢
            omega
          · simpa [ho, hc] using he
      simp only [contentLength, hd, Nat.succ_ne_zero, if_false, ih, Segment.closing_cons he,
        Option.map_map]
      rfl

theorem nameLength_eq (limit : Nat) (t : Text) :
    nameLength limit t = ((t.take limit).takeWhile Name.isPart).length := by
  induction t generalizing limit with
  | nil => cases limit <;> simp [nameLength]
  | cons c t ih =>
    cases limit with
    | zero => rfl
    | succ limit =>
      by_cases hc : Name.isPart c = true
      · simp [nameLength, hc, ih]
      · simp [nameLength, hc]

theorem nameLength_append {name rest : Text} (hn : Name.isValid name = true)
    (hr : name.length = Name.maxLength ∨ ∀ c ∈ rest.head?, Name.isPart c = false) :
    nameLength Name.maxLength (name ++ rest) = name.length := by
  have h := Name.run_append hn hr
  rw [Name.run] at h
  rw [nameLength_eq, h]

theorem ofSign?_isSome (c : Char) :
    (Operator.ofSign? c).isSome = ['-', '+', '?', '='].contains c := by
  unfold Operator.ofSign?
  repeat' split
  all_goals simp_all

theorem tokenPlace?_cons (c : Char) (t : Text) :
    tokenPlace? (c :: t) =
      if (c == ':' && t.head?.any (['-', '+', '?', '='].contains ·)) = true then some 0
      else (tokenPlace? t).map (· + 1) := by
  have h0 : ((c :: t)[0]? == some ':' && (c :: t)[0 + 1]?.any (['-', '+', '?', '='].contains ·)) =
      (c == ':' && t.head?.any (['-', '+', '?', '='].contains ·)) := by
    cases t <;> simp
  rw [tokenPlace?, List.length_cons, List.range_succ_eq_map, List.find?_cons, h0, List.find?_map]
  cases c == ':' && t.head?.any (['-', '+', '?', '='].contains ·) <;> rfl

theorem split_token (op : Operator) (t : Text) :
    split (op.token ++ t) = ([], some (op.sign, t)) := by
  have h : tokenPlace? (op.token ++ t) = some 0 := by
    simp only [Operator.token, List.cons_append, List.nil_append, tokenPlace?_cons]
    cases op <;> rfl
  rw [split, h]
  simp [Operator.token]

theorem split_cons {c : Char} {t : Text} (h : ∀ o w, c :: t ≠ Operator.token o ++ w) :
    split (c :: t) = (c :: (split t).1, (split t).2) := by
  have hn : (c == ':' && t.head?.any (['-', '+', '?', '='].contains ·)) = false := by
    by_cases hc : c = ':'
    · cases t with
      | nil => simp
      | cons d t =>
        have hd : Operator.ofSign? d = none := by
          cases ho : Operator.ofSign? d with
          | none => rfl
          | some o =>
            exact absurd (by simp [Operator.token, hc, Operator.ofSign?_eq_some ho]) (h o t)
        have hs := ofSign?_isSome d
        rw [hd] at hs
        simpa [hc] using hs.symm
    · simp [hc]
  rw [split, tokenPlace?_cons, hn, if_neg Bool.false_ne_true, split]
  cases tokenPlace? t <;> rfl

theorem split_eq (content : Text) :
    split content = match Operator.split? content with
      | none => (content, none)
      | some (name, op, operand) => (name, some (op.sign, operand)) := by
  induction content with
  | nil => rfl
  | cons c t ih =>
    by_cases ht : ∃ o w, c :: t = Operator.token o ++ w
    · obtain ⟨o, w, he⟩ := ht
      rw [he, split_token, Operator.split?_token]
    · have h : ∀ o w, c :: t ≠ Operator.token o ++ w := fun o w he => ht ⟨o, w, he⟩
      rw [split_cons h, Operator.split?_cons h, ih]
      cases Operator.split? t <;> rfl

theorem lookUp_plain (rule : UnsetRule) (s : σ) (name source : Text) :
    lookUp rule s name source none =
      ((Segment.expand rule s (.plain name source)).result,
        (Segment.expand rule s (.plain name source)).store) := by
  rcases h : VariableStore.get? s name with _ | _ | ⟨c, v⟩ <;>
    cases rule <;> simp [lookUp, Segment.expand, VariableStore.value?, h]

theorem lookUp_braced (rule : UnsetRule) (s : σ) (name source operand : Text) (op : Operator) :
    lookUp rule s name source (some (op.sign, operand)) =
      ((Segment.expand rule s (.braced name op operand)).result,
        (Segment.expand rule s (.braced name op operand)).store) := by
  rcases h : VariableStore.get? s name with _ | _ | ⟨c, v⟩ <;>
    cases op <;> simp [lookUp, Segment.expand, VariableStore.value?, Operator.sign, h]

theorem lookUpContent_eq (rule : UnsetRule) (s : σ) (content : Text) :
    lookUpContent rule s content =
      ((Segment.expand rule s (Segment.ofContent content)).result,
        (Segment.expand rule s (Segment.ofContent content)).store) := by
  have hsrc : '$' :: '{' :: content ++ ['}'] = Segment.inBraces content := rfl
  rw [lookUpContent, split_eq, Segment.ofContent, hsrc]
  cases Operator.split? content with
  | none =>
    by_cases hn : Name.isValid content = true
    · simp only [hn, if_true, lookUp_plain]
    · simp only [hn]
      rfl
  | some r =>
    obtain ⟨name, op, operand⟩ := r
    by_cases hn : Name.isValid name = true
    · simp only [hn, if_true, lookUp_braced]
    · simp only [hn]
      rfl

theorem run_nil (rule : UnsetRule) (pos : Nat) (out : Text) (s : σ) :
    run rule [] pos out s = (.ok out, s) := by
  rw [run]

theorem run_text (rule : UnsetRule) {p : Text} (hp : '$' ∉ p) (rest : Text) (pos : Nat)
    (out : Text) (s : σ) :
    run rule (p ++ rest) pos out s = run rule rest (pos + p.byteSize) (out ++ p) s := by
  induction p generalizing pos out with
  | nil => simp
  | cons c p ih =>
    simp only [List.mem_cons, not_or] at hp
    rw [List.cons_append, run]
    · rw [ih hp.2, byteSize_cons, Nat.add_assoc, List.append_assoc, List.singleton_append]
    · intro t hc
      exact absurd hc.symm hp.1
    · intro d t hc
      exact absurd hc.symm hp.1

theorem run_sigil (rule : UnsetRule) {rest : Text}
    (hr : ∀ c ∈ rest.head?, c ≠ '{' ∧ Name.isStart c = false) (pos : Nat) (out : Text) (s : σ) :
    run rule ('$' :: rest) pos out s = run rule rest (pos + 1) (out ++ ['$']) s := by
  cases rest with
  | nil =>
    rw [run_nil, run]
    · rw [run_nil]
    all_goals simp
  | cons c rest =>
    obtain ⟨hc, hs⟩ := hr c rfl
    rw [run, hs]
    · rfl
    · exact hc

theorem run_braces (rule : UnsetRule) {content : Text} (hc : Balanced content) (rest : Text)
    (pos : Nat) (out : Text) (s : σ) :
    run rule (Segment.inBraces content ++ rest) pos out s =
      match lookUpContent rule s content with
      | (.error e, s) => (.error e, s)
      | (.ok text, s) => run rule rest (pos + byteSize content + 3) (out ++ text) s := by
  have hcl := Segment.closing_eq_some_iff.mpr ⟨(rfl : content ++ '}' :: rest = _), hc⟩
  have hn : contentLength 1 (content ++ '}' :: rest) = some content.length := by
    rw [contentLength_succ, hcl]
    rfl
  have hd : (content ++ '}' :: rest).drop (content.length + 1) = rest := by
    rw [List.drop_append]
    simp
  rw [Segment.inBraces_append, run, hn]
  simp only [List.take_left, hd]

theorem run_bare (rule : UnsetRule) {name rest : Text} (hn : Name.isValid name = true)
    (hr : name.length = Name.maxLength ∨ ∀ c ∈ rest.head?, Name.isPart c = false) (pos : Nat)
    (out : Text) (s : σ) :
    run rule ('$' :: (name ++ rest)) pos out s =
      match lookUp rule s name ('$' :: name) none with
      | (.error e, s) => (.error e, s)
      | (.ok text, s) => run rule rest (pos + name.length + 1) (out ++ text) s := by
  have hl := nameLength_append hn hr
  obtain ⟨c, n, rfl, hs⟩ := Name.exists_isStart_of_isValid hn
  have hc : c ≠ '{' := by rintro rfl; exact absurd hs (by decide)
  have ht : (c :: (n ++ rest)).take (c :: n).length = c :: n := List.take_left
  have hd : (c :: (n ++ rest)).drop (c :: n).length = rest := List.drop_left
  rw [List.cons_append] at hl ⊢
  rw [run]
  · simp only [hs, hl, ht, hd, if_true]
  · exact hc

/-- One segment further.  The run has read its source and written its text, or it has stopped. -/
theorem run_of_begins (rule : UnsetRule) {t rest : Text} {g : Segment}
    (h : Segment.Begins t g rest) (pos : Nat) (out : Text) (s : σ) :
    run rule t pos out s =
      match (Segment.expand rule s g).result with
      | .error e => (.error e, (Segment.expand rule s g).store)
      | .ok text =>
        run rule rest (pos + g.source.byteSize) (out ++ text) (Segment.expand rule s g).store := by
  cases h with
  | text hp hs => exact run_text rule hs _ pos out s
  | sigil hr => exact run_sigil rule hr pos out s
  | @bare name _ hn hr =>
    have hb : (Segment.plain name ('$' :: name)).source.byteSize = name.length + 1 := by
      rw [Segment.source, byteSize_cons, Name.byteSize_of_isValid hn, Nat.add_comm]
      rfl
    rw [run_bare rule hn hr, lookUp_plain, hb]
    cases (Segment.expand rule s (.plain name ('$' :: name))).result <;> rfl
  | @braces content _ hc =>
    have hb : (Segment.ofContent content).source.byteSize = content.byteSize + 3 := by
      rw [Segment.source_ofContent, Segment.inBraces, byteSize_cons, byteSize_cons, byteSize_append]
      change 1 + (1 + (byteSize content + 1)) = _
      omega
    rw [run_braces rule hc, lookUpContent_eq, hb]
    cases (Segment.expand rule s (Segment.ofContent content)).result <;> rfl

theorem run_unclosed (rule : UnsetRule) {u : Text} (hu : StaysWithin 0 u) (pos : Nat) (out : Text)
    (s : σ) : run rule ('$' :: '{' :: u) pos out s = (.error (.unclosed ⟨pos⟩), s) := by
  rw [run, contentLength_succ, Segment.closing_eq_none_iff.mpr hu]
  rfl

/-- From any place on, with any text written, a run comes to what the rest expands to. -/
theorem run_eq (rule : UnsetRule) (t : Text) (pos : Nat) (out : Text) (s : σ) :
    run rule t pos out s =
      (((EnvTemplate.expand rule t s).shift pos).result.map (out ++ ·),
        (EnvTemplate.expand rule t s).store) := by
  -- A run has no segments of its own; the induction gives it those of the scan.
  induction t using scan_induction generalizing pos out s with
  | nil => simp [run_nil, Outcome.done, Except.map]
  | unclosed u hu =>
    rw [run_unclosed rule hu, expand_unclosed rule hu]
    rfl
  | segment t g rest h ih =>
    rw [run_of_begins rule h, expand_of_begins rule h, Outcome.shift_andThen,
      Segment.shift_expand]
    generalize Segment.expand rule s g = a
    rcases a with ⟨e | text, s', j⟩
    · rfl
    · simp only [ih, Outcome.shift_shift, Outcome.andThen]
      generalize EnvTemplate.expand rule rest s' = b
      rcases b with ⟨e | u, s'', j'⟩ <;> simp [Except.map]

/-- Expanding in one pass has the same result as expanding segment by segment, and leaves the same
store. -/
theorem expand_eq_segmentwise (rule : UnsetRule) (t : Text) (s : σ) :
    expand rule t s =
      ((EnvTemplate.expand rule t s).result, (EnvTemplate.expand rule t s).store) := by
  rw [expand, run_eq, Outcome.shift_zero]
  cases (EnvTemplate.expand rule t s).result <;> rfl

end OnePass
end EnvTemplate
