import EnvTemplate.Proofs.Expansion.Stepwise
import EnvTemplate.Proofs.Segment.Grammar

/-! Expanding two templates as one.  What the first one does to the store the second one sees, and
an unclosed brace of the second is found further on.  This needs a seam that no placeholder and no
sigil reaches across; a required variable that is missing before the seam needs nothing. -/
namespace EnvTemplate

open Segment Text

variable {σ : Type} [VariableStore σ]

/-- A segment that is read in the same way whatever follows it, or text that simply goes on. -/
inductive Segment.IsSealed : Segment → Prop
  | text {p : Text} (hp : IsPlainText p) : IsSealed (literal p)
  | braces {g : Segment} {content : Text} (h : g.source = inBraces content) : IsSealed g

/-- No placeholder can reach from the end of one template into another. -/
def Seam (a b : Text) : Prop :=
  (b = [] ∨ b.head? = some '$') ∨ a = [] ∨ ∃ g, (scan a).segments.getLast? = some g ∧ g.IsSealed

namespace Segment

theorem isPlainText_ne_inBraces {p content : Text} (hp : IsPlainText p) : p ≠ inBraces content := by
  rintro rfl
  exact hp.2 (by simp [inBraces])

/-- A segment in braces is read in the same way whatever follows it. -/
theorem Begins.append_of_braces {t rest content : Text} {g : Segment} (h : Begins t g rest)
    (hg : g.source = inBraces content) (b : Text) : Begins (t ++ b) g (rest ++ b) := by
  cases h with
  | text hp hs => exact absurd hg (isPlainText_ne_inBraces ⟨hp, hs⟩)
  | sigil => simp [source, inBraces] at hg
  | bare hn =>
    obtain ⟨c, n, rfl, hs⟩ := Name.exists_isStart_of_isValid hn
    simp only [source, inBraces, List.cons.injEq, true_and] at hg
    rw [hg.1] at hs
    exact absurd hs (by decide)
  | braces hc =>
    rw [List.append_assoc]
    exact .braces hc

end Segment

theorem expand_text_append (rule : UnsetRule) {p : Text} (hp : IsPlainText p) (b : Text) (s : σ) :
    expand rule (p ++ b) s = (Segment.expand rule s (literal p)).andThen fun s' =>
      (expand rule b s').shift p.byteSize := by
  obtain ⟨q, rest, rfl, hq, hr⟩ := exists_text b
  have hb : Begins (p ++ q ++ rest) (literal (p ++ q)) rest :=
    .text (by simp [hp.1]) (by simp [hp.2, hq]) hr
  rw [← List.append_assoc, expand_of_begins rule hb]
  by_cases hq0 : q = []
  · rw [hq0, List.append_nil]
    rfl
  · have hstep : expand (σ := σ) rule (q ++ rest) = _ :=
      funext (expand_of_begins rule (.text hq0 hq hr))
    simp only [hstep, source, byteSize_append, ← Outcome.shift_shift, Segment.expand,
      Outcome.andThen]
    generalize expand rule rest s = a
    rcases a with ⟨e | t, s', j⟩ <;> simp [Except.map]

theorem segments_of_begins {t rest : Text} {g : Segment} (h : Begins t g rest) :
    (scan t).segments = g :: (scan rest).segments := by
  rw [scan_of_begins h]
  rfl

theorem segments_ne_nil {t : Text} (ht : t ≠ []) (hn : (scan t).unclosed = none) :
    (scan t).segments ≠ [] := by
  intro he
  have h := sources_scan hn
  rw [he] at h
  exact ht h.symm

theorem Seam.of_begins {t rest b : Text} {g : Segment} (h : Begins t g rest) (hr : rest ≠ [])
    (hn : (scan rest).unclosed = none) (hab : Seam t b) : Seam rest b := by
  refine hab.imp_right fun hab => Or.inr ?_
  rcases hab with rfl | ⟨g', hg', hseal⟩
  · exact absurd rfl h.ne_nil
  · rw [segments_of_begins h] at hg'
    obtain ⟨x, xs, hx⟩ := List.exists_cons_of_ne_nil (segments_ne_nil hr hn)
    rw [hx, List.getLast?_cons_cons, ← hx] at hg'
    exact ⟨g', hg', hseal⟩

theorem expand_append_of_last (rule : UnsetRule) {t b : Text} {g : Segment} (h : Begins t g [])
    (hb : (b = [] ∨ b.head? = some '$') ∨ g.IsSealed) (s : σ) :
    expand rule (t ++ b) s = (Segment.expand rule s g).andThen fun s' =>
      (expand rule b s').shift t.byteSize := by
  have ht : g.source = t := by simpa using h.source_append
  have hh : (∀ c ∈ ([] ++ b : Text).head?, c ∈ ([] : Text).head? ∨ c = '$') →
      expand rule (t ++ b) s = (Segment.expand rule s g).andThen fun s' =>
        (expand rule b s').shift t.byteSize := by
    intro hc
    have hbeg := h.append hc
    rw [List.nil_append] at hbeg
    rw [expand_of_begins rule hbeg, ht]
  rcases hb with (rfl | hb) | hb
  · exact hh (by simp)
  · refine hh fun c hc => Or.inr ?_
    rw [List.nil_append, hb] at hc
    exact (Option.some.inj hc).symm
  · cases hb with
    | text hp =>
      rw [source] at ht
      rw [← ht]
      exact expand_text_append rule hp b s
    | braces hbr =>
      have hbeg := h.append_of_braces hbr b
      rw [List.nil_append] at hbeg
      rw [expand_of_begins rule hbeg, ht]

/-- Expanding across a seam. -/
theorem expand_append (rule : UnsetRule) {a b : Text} (ha : (scan a).unclosed = none)
    (hab : Seam a b) (s : σ) :
    expand rule (a ++ b) s = (expand rule a s).andThen fun s' =>
      (expand rule b s').shift a.byteSize := by
  induction a using scan_induction generalizing s with
  | nil => simp
  | unclosed u hu => simp [scan_unclosed hu] at ha
  | segment t g rest h ih =>
    by_cases hr : rest = []
    · subst hr
      have hg : (b = [] ∨ b.head? = some '$') ∨ g.IsSealed := by
        refine hab.imp_right fun hab => ?_
        rcases hab with rfl | ⟨g', hg', hseal⟩
        · exact absurd rfl h.ne_nil
        · rw [segments_of_begins h] at hg'
          obtain rfl : g = g' := by simpa using hg'
          exact hseal
      rw [expand_append_of_last rule h hg, expand_of_begins rule h]
      simp
    · have hrest : (scan rest).unclosed = none := by
        simpa [scan_of_begins h, Scan.cons, Scan.shift] using ha
      have hsz : t.byteSize = g.source.byteSize + rest.byteSize := by
        rw [← h.source_append, byteSize_append]
      rw [expand_of_begins rule (h.append_of_rest hr b), expand_of_begins rule h,
        Outcome.andThen_assoc]
      refine congrArg _ (funext fun s' => ?_)
      rw [ih hrest (hab.of_begins h hr hrest), Outcome.shift_andThen, hsz]
      simp only [Outcome.shift_shift]

theorem Segment.source_of_error {rule : UnsetRule} {s : σ} {g : Segment} {e : ExpansionError}
    (h : (Segment.expand rule s g).result = .error e) : ∃ content, g.source = inBraces content := by
  generalize ha : Segment.expand rule s g = a at h
  have hg := Segment.expands rule s g
  rw [ha] at hg
  cases hg with
  | missing => exact ⟨_, rfl⟩
  | _ => cases h

theorem expand_append_of_missing (rule : UnsetRule) {a : Text} {s : σ} {name complaint : Text}
    (h : (expand rule a s).result = .error (.missing name complaint)) (b : Text) :
    expand rule (a ++ b) s = expand rule a s := by
  induction a using scan_induction generalizing s with
  | nil => cases h
  | unclosed u hu =>
    rw [expand_unclosed rule hu] at h
    cases h
  | segment t g rest hb ih =>
    rw [expand_of_begins rule hb] at h ⊢
    rcases Outcome.andThen_eq_error_iff.mp h with he | ⟨v, -, he⟩
    · obtain ⟨content, hg⟩ := Segment.source_of_error he
      rw [expand_of_begins rule (hb.append_of_braces hg b), Outcome.andThen_of_error he,
        Outcome.andThen_of_error he]
    · have hrest := Outcome.shift_eq_missing_iff.mp he
      have hr : rest ≠ [] := by
        rintro rfl
        cases hrest
      rw [expand_of_begins rule (hb.append_of_rest hr b)]
      exact Outcome.andThen_congr fun _ _ => congrArg _ (ih hrest)

/-- Expansion composes over concatenation: across a seam the second template is expanded from the
store that the first one leaves, and a variable that is missing in the first one is all there is. -/
theorem expand_concatenation (rule : UnsetRule) (a b : Text) (s : σ) :
    ((scan a).unclosed = none → Seam a b →
      expand rule (a ++ b) s = (expand rule a s).andThen fun s' =>
        (expand rule b s').shift a.byteSize) ∧
      ∀ name complaint, (expand rule a s).result = .error (.missing name complaint) →
        expand rule (a ++ b) s = expand rule a s :=
  ⟨fun ha hab => expand_append rule ha hab s, fun _ _ h => expand_append_of_missing rule h b⟩

theorem expand_concatenation_seam :
    let a : Text := "é${A:=1}".toList
    let b : Text := "x$A".toList ++ ['$', '{', 'B']
    let c : Text := "${A:=1}${B:?m}".toList ++ ['$', '{']
    (scan a).unclosed = none ∧ Seam a b ∧
      expand .keep (a ++ b) (∅ : Vars) = ((expand .keep a ∅).andThen fun s =>
        (expand .keep b s).shift a.byteSize) ∧
      (expand .keep c (∅ : Vars)).result = .error (.missing ['B'] ['m']) ∧
      expand .keep (c ++ ['}']) (∅ : Vars) = expand .keep c ∅ := by
  intro a b c
  have ha : (scan a).unclosed = none := by decide +kernel
  have hl : (scan a).segments.getLast? = some (braced ['A'] .assign ['1']) := by decide +kernel
  have hab : Seam a b := Or.inr (Or.inr ⟨_, hl, .braces rfl⟩)
  have hc : (expand .keep c (∅ : Vars)).result = .error (.missing ['B'] ['m']) := rfl
  exact ⟨ha, hab, (expand_concatenation .keep a b ∅).1 ha hab, hc,
    (expand_concatenation .keep c ['}'] ∅).2 _ _ hc⟩

end EnvTemplate
