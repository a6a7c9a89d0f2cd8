import EnvTemplate.Proofs.Segment.Token
import EnvTemplate.Text.Utf8

/-! What reading a segment does.  `Segment.Begins` lists the four ways in which a text begins with a
segment, without a reader; the reader finds exactly these.  A scan reads a template from its
beginning to its end, or to a brace that nothing closes, and loses nothing on its way. -/
namespace EnvTemplate
namespace Name

theorem takeWhile_take_stops (p : Char → Bool) (k : Nat) (t : Text) :
    ((t.take k).takeWhile p).length = k ∨
      ∀ c ∈ (t.drop ((t.take k).takeWhile p).length).head?, p c = false := by
  induction t generalizing k with
  | nil => simp
  | cons c t ih =>
    cases k with
    | zero => exact Or.inl rfl
    | succ k =>
      by_cases hc : p c = true
      · rcases ih k with h | h
        · exact Or.inl (by simp [hc, h])
        · exact Or.inr (by simpa [hc] using h)
      · exact Or.inr (by simp [hc])

theorem run_stops (t : Text) :
    (run t).length = maxLength ∨ ∀ c ∈ (t.drop (run t).length).head?, isPart c = false :=
  takeWhile_take_stops isPart maxLength t

theorem isValid_run {c : Char} (hc : isStart c = true) (t : Text) :
    isValid (run (c :: t)) = true := by
  have hl : ((t.take 63).takeWhile isPart).length ≤ 63 :=
    Nat.le_trans (List.takeWhile_sublist _).length_le (List.length_take_le 63 t)
  have hr : run (c :: t) = c :: (t.take 63).takeWhile isPart := by
    simp [run, maxLength, isPart_of_isStart hc]
  have ha : ((t.take 63).takeWhile isPart).all isPart = true := List.all_takeWhile
  have hd : decide (((t.take 63).takeWhile isPart).length < maxLength) = true :=
    decide_eq_true (Nat.lt_succ_of_le hl)
  simp only [hr, isValid, hc, ha, hd, Bool.and_true]

/-- A name is the whole run at its place if nothing behind it could go on with it. -/
theorem run_append {n : Text} (hn : isValid n = true) {rest : Text}
    (hr : n.length = maxLength ∨ ∀ c ∈ rest.head?, isPart c = false) : run (n ++ rest) = n := by
  have hl := length_le_of_isValid hn
  have hs : (rest.take (maxLength - n.length)).takeWhile isPart = [] := by
    rcases hr with hr | hr
    · simp [hr]
    · cases rest with
      | nil => simp
      | cons c rest =>
        have hc : isPart c = false := hr c (by simp)
        cases maxLength - n.length <;> simp [hc]
  rw [run, List.take_append, List.take_of_length_le hl,
    List.takeWhile_append_of_pos fun c hc => isPart_of_isValid hn hc, hs, List.append_nil]

theorem exists_isStart_of_isValid {n : Text} (hn : isValid n = true) :
    ∃ c t, n = c :: t ∧ isStart c = true := by
  cases n with
  | nil => simp [isValid] at hn
  | cons c t =>
    simp only [isValid, Bool.and_eq_true] at hn
    exact ⟨c, t, rfl, hn.1.1⟩

theorem utf8Size_of_isPart {c : Char} (h : isPart c = true) : c.utf8Size = 1 := by
  have hc : c.val ≤ 127 := by
    rw [isPart, Char.isAlphanum, Bool.or_eq_true, Bool.or_eq_true] at h
    rcases h with (h | h) | h
    · rcases Bool.or_eq_true_iff.mp h with h | h
      · have hz : 'A'.val ≤ c.val ∧ c.val ≤ 'Z'.val := of_decide_eq_true h
        exact UInt32.le_trans hz.2 (by decide)
      · have hz := of_decide_eq_true (Bool.and_eq_true_iff.mp h).2
        exact UInt32.le_trans hz (by decide)
    · have hz := of_decide_eq_true (Bool.and_eq_true_iff.mp h).2
      exact UInt32.le_trans hz (by decide)
    · rw [eq_of_beq h]
      decide
  simp [Char.utf8Size, hc]

theorem byteSize_of_isValid {n : Text} (h : isValid n = true) : n.byteSize = n.length := by
  have key : ∀ m : Text, (∀ c ∈ m, isPart c = true) → m.byteSize = m.length := by
    intro m
    induction m with
    | nil => simp
    | cons c m ih =>
      intro hm
      have hc := utf8Size_of_isPart (hm c (by simp))
      have ht := ih fun x hx => hm x (List.mem_cons_of_mem c hx)
      rw [Text.byteSize_cons, List.length_cons, hc, ht, Nat.add_comm]
  exact key n fun c hc => isPart_of_isValid h hc

end Name

namespace Segment

open Text

/-- A text begins with a segment and goes on with a rest. -/
inductive Begins : Text → Segment → Text → Prop
  /-- Text up to the next `$` or up to the end. -/
  | text {p rest : Text} (hp : p ≠ []) (hs : '$' ∉ p) (hr : ∀ c ∈ rest.head?, c = '$') :
      Begins (p ++ rest) (literal p) rest
  /-- A `$` that begins no placeholder. -/
  | sigil {rest : Text} (hr : ∀ c ∈ rest.head?, c ≠ '{' ∧ Name.isStart c = false) :
      Begins ('$' :: rest) (literal ['$']) rest
  /-- A `$` and a name, which is as long as it can be. -/
  | bare {name rest : Text} (hn : Name.isValid name = true)
      (hr : name.length = Name.maxLength ∨ ∀ c ∈ rest.head?, Name.isPart c = false) :
      Begins ('$' :: (name ++ rest)) (plain name ('$' :: name)) rest
  | braces {content rest : Text} (hc : Balanced content) :
      Begins (inBraces content ++ rest) (ofContent content) rest

theorem inBraces_append (content rest : Text) :
    inBraces content ++ rest = '$' :: '{' :: (content ++ '}' :: rest) := by
  simp [inBraces]

theorem Begins.ne_nil {t rest : Text} {g : Segment} (h : Begins t g rest) : t ≠ [] := by
  cases h with
  | text hp => simp [hp]
  | sigil => simp
  | bare => simp
  | braces => simp [inBraces]

theorem Begins.append {t rest : Text} {g : Segment} (h : Begins t g rest) {b : Text}
    (hb : ∀ c ∈ (rest ++ b).head?, c ∈ rest.head? ∨ c = '$') : Begins (t ++ b) g (rest ++ b) := by
  cases h with
  | text hp hs hr =>
    rw [List.append_assoc]
    exact .text hp hs fun c hc => (hb c hc).elim (hr c) id
  | sigil hr =>
    refine .sigil fun c hc => ?_
    rcases hb c hc with h | rfl
    · exact hr c h
    · decide
  | bare hn hr =>
    rw [List.cons_append, List.append_assoc]
    refine .bare hn (hr.imp_right fun hr c hc => ?_)
    rcases hb c hc with h | rfl
    · exact hr c h
    · decide
  | braces hc =>
    rw [List.append_assoc]
    exact .braces hc

theorem Begins.append_of_rest {t rest : Text} {g : Segment} (h : Begins t g rest) (hr : rest ≠ [])
    (b : Text) : Begins (t ++ b) g (rest ++ b) := by
  obtain ⟨c, r, rfl⟩ := List.exists_cons_of_ne_nil hr
  exact h.append fun x hx => Or.inl hx

theorem exists_text (t : Text) : ∃ p rest, t = p ++ rest ∧ '$' ∉ p ∧ ∀ c ∈ rest.head?, c = '$' := by
  refine ⟨t.takeWhile (· != '$'), t.dropWhile (· != '$'), by simp, ?_, ?_⟩
  · intro hm
    have ha := List.all_eq_true.mp (List.all_takeWhile (p := (· != '$')) (l := t)) _ hm
    simp at ha
  · intro c hc
    have hn := List.head?_dropWhile_not (· != '$') t
    rw [Option.mem_def] at hc
    rw [hc] at hn
    simpa using hn

/-- A text that is not empty begins with a segment, or with a brace that nothing closes. -/
theorem begins_or_unclosed {t : Text} (ht : t ≠ []) :
    (∃ g rest, Begins t g rest) ∨ ∃ u, t = '$' :: '{' :: u ∧ StaysWithin 0 u := by
  cases t with
  | nil => exact absurd rfl ht
  | cons d t =>
    by_cases hd : d = '$'
    · subst hd
      cases t with
      | nil => exact Or.inl ⟨_, _, .sigil (by simp)⟩
      | cons c t =>
        by_cases hc : c = '{'
        · subst hc
          cases h : closing 0 t with
          | none => exact Or.inr ⟨t, rfl, closing_eq_none_iff.mp h⟩
          | some r =>
            obtain ⟨rfl, hb⟩ := closing_eq_some_iff.mp (show closing 0 t = some (r.1, r.2) from h)
            have h : Begins _ _ r.2 := .braces hb
            rw [inBraces_append] at h
            exact Or.inl ⟨_, _, h⟩
        · by_cases hs : Name.isStart c = true
          · have hb := Begins.bare (Name.isValid_run hs t) (Name.run_stops (c :: t))
            rw [run_append_drop] at hb
            exact Or.inl ⟨_, _, hb⟩
          · exact Or.inl ⟨_, _, .sigil (by simp [hc, hs])⟩
    · obtain ⟨p, rest, rfl, hp, hr⟩ := exists_text t
      have hp' : '$' ∉ d :: p := by simp [hp, Ne.symm hd]
      exact Or.inl ⟨_, _, .text (List.cons_ne_nil d p) hp' hr⟩

theorem read_braces (t : Text) :
    read ('$' :: '{' :: t) = (closing 0 t).map fun (c, rest) => (ofContent c, rest) := rfl

theorem read_sigil_cons {c : Char} (hc : c ≠ '{') (t : Text) :
    read ('$' :: c :: t) =
      if Name.isStart c = true then
        some (plain (Name.run (c :: t)) ('$' :: Name.run (c :: t)),
          (c :: t).drop (Name.run (c :: t)).length)
      else some (literal ['$'], c :: t) := by
  rw [read]
  exact hc

theorem read_text {c : Char} (hc : c ≠ '$') (t : Text) :
    read (c :: t) =
      some (literal ((c :: t).takeWhile (· != '$')), (c :: t).dropWhile (· != '$')) := by
  rw [read]
  all_goals simp [hc]

/-- The reader finds what a text begins with. -/
theorem Begins.read_eq {t rest : Text} {g : Segment} (h : Begins t g rest) :
    read t = some (g, rest) := by
  cases h with
  | @text p _ hp hs hr =>
    cases p with
    | nil => exact absurd rfl hp
    | cons c p =>
      have hc : c ≠ '$' := by rintro rfl; simp at hs
      have hall : ∀ x ∈ c :: p, (x != '$') = true := by
        intro x hx
        have hne : x ≠ '$' := by rintro rfl; exact hs hx
        simpa using hne
      have hstop : rest.takeWhile (· != '$') = [] ∧ rest.dropWhile (· != '$') = rest := by
        cases rest with
        | nil => simp
        | cons x rest => simp [hr x (by simp)]
      rw [List.cons_append, read_text hc, ← List.cons_append,
        List.takeWhile_append_of_pos hall, List.dropWhile_append_of_pos hall, hstop.1, hstop.2,
        List.append_nil]
  | sigil hr =>
    cases rest with
    | nil => rfl
    | cons c rest =>
      obtain ⟨hc, hs⟩ := hr c (by simp)
      rw [read_sigil_cons hc, if_neg (by simp [hs])]
  | @bare name _ hn hr =>
    obtain ⟨c, n, rfl, hs⟩ := Name.exists_isStart_of_isValid hn
    have hc : c ≠ '{' := by rintro rfl; exact absurd hs (by decide)
    have hrun := Name.run_append hn hr
    rw [List.cons_append] at hrun ⊢
    rw [read_sigil_cons hc, if_pos hs, hrun, ← List.cons_append, List.drop_left]
  | @braces content _ hb =>
    have hcl := closing_eq_some_iff.mpr ⟨(rfl : content ++ '}' :: rest = _), hb⟩
    rw [inBraces_append, read_braces, hcl]
    rfl

theorem read_unclosed {u : Text} (hu : StaysWithin 0 u) : read ('$' :: '{' :: u) = none := by
  rw [read_braces, closing_eq_none_iff.mpr hu]
  rfl

theorem read_eq_some_iff {t rest : Text} {g : Segment} (ht : t ≠ []) :
    read t = some (g, rest) ↔ Begins t g rest := by
  refine ⟨fun h => ?_, Begins.read_eq⟩
  rcases begins_or_unclosed ht with ⟨g', rest', hb⟩ | ⟨u, rfl, hu⟩
  · rw [hb.read_eq] at h
    cases h
    exact hb
  · rw [read_unclosed hu] at h
    cases h

theorem read_eq_none_iff {t : Text} :
    read t = none ↔ ∃ u, t = '$' :: '{' :: u ∧ StaysWithin 0 u := by
  constructor
  · intro h
    have ht : t ≠ [] := by rintro rfl; cases h
    rcases begins_or_unclosed ht with ⟨g, rest, hb⟩ | hu
    · rw [hb.read_eq] at h
      cases h
    · exact hu
  · rintro ⟨u, rfl, hu⟩
    exact read_unclosed hu

end Segment
end EnvTemplate
