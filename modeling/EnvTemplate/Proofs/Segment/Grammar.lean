import EnvTemplate.Proofs.Segment.Lossless

/-! The grammar of templates.  `Segment.WellFormed` says what a segment looks like on its own,
`Segment.MayPrecede` which text may follow it, and a list of segments is `Canonical` if it keeps to
both.  Scans yield exactly the canonical lists, and each of them is read back from its source. -/
namespace EnvTemplate

namespace Segment

open Text

def IsPlainText (p : Text) : Prop := p ≠ [] ∧ '$' ∉ p

/-- What a segment looks like on its own. -/
inductive WellFormed : Segment → Prop
  | text {p : Text} (hp : IsPlainText p) : WellFormed (literal p)
  | sigil : WellFormed (literal ['$'])
  | invalid {content name : Text} (hc : Balanced content) (h : NamePart content name)
      (hn : Name.isValid name = false) : WellFormed (literal (inBraces content))
  | bare {name : Text} (hn : Name.isValid name = true) : WellFormed (plain name ('$' :: name))
  | plain {name : Text} (hn : Name.isValid name = true) : WellFormed (plain name (inBraces name))
  | braced {name operand : Text} (op : Operator) (hn : Name.isValid name = true)
      (hb : Balanced operand) : WellFormed (braced name op operand)

/-- A text may directly follow a segment if it could not be read as part of it. -/
structure MayPrecede (g : Segment) (p : Text) : Prop where
  text : ∀ q, g = literal q → ¬ IsPlainText q
  sigil : g = literal ['$'] → ∀ c ∈ p.head?, c ≠ '{' ∧ Name.isStart c = false
  bare : ∀ name, g = plain name ('$' :: name) → name.byteSize < Name.maxLength →
    ∀ c ∈ p.head?, Name.isPart c = false

/-- A list of segments that a template is split into. -/
inductive Canonical : List Segment → Prop
  | nil : Canonical []
  | cons {g : Segment} {gs : List Segment} (hg : WellFormed g)
      (hp : ∀ p, gs.head? = some (literal p) → IsPlainText p → MayPrecede g p)
      (hgs : Canonical gs) : Canonical (g :: gs)

theorem balanced_braced_iff {name : Text} (hn : Name.isValid name = true) (op : Operator)
    (operand : Text) : Balanced (name ++ op.token ++ operand) ↔ Balanced operand := by
  have hb : ∀ c, Name.isPart c = false → c ≠ ':' → c ≠ op.sign → c ∉ name ++ op.token := by
    intro c hp hc hs
    simp [Operator.token, hc, hs, Name.not_mem_of_isValid hn hp]
  have ho := hb '{' (by decide) (by decide) (by cases op <;> decide)
  have hc := hb '}' (by decide) (by decide) (by cases op <;> decide)
  exact balanced_append_iff ho hc operand

theorem balanced_of_isValid {name : Text} (hn : Name.isValid name = true) : Balanced name :=
  balanced_of_not_mem (Name.not_mem_of_isValid hn (by decide))
    (Name.not_mem_of_isValid hn (by decide))

theorem wellFormed_ofContent {content : Text} (hc : Balanced content) :
    WellFormed (ofContent content) := by
  rcases ofContent_cases content with
    ⟨name, op, operand, hn, rfl, he⟩ | ⟨hn, he⟩ | ⟨name, h, hn, he⟩
  · rw [he]
    exact .braced op hn ((balanced_braced_iff hn op operand).mp hc)
  · rw [he]
    exact .plain hn
  · rw [he]
    exact .invalid hc h hn

theorem Begins.wellFormed {t rest : Text} {g : Segment} (h : Begins t g rest) : WellFormed g := by
  cases h with
  | text hp hs => exact .text ⟨hp, hs⟩
  | sigil => exact .sigil
  | bare hn => exact .bare hn
  | braces hc => exact wellFormed_ofContent hc

theorem ofContent_ne_bare (content name : Text) : ofContent content ≠ plain name ('$' :: name) := by
  intro he
  rcases ofContent_cases content with ⟨_, _, _, _, _, h⟩ | ⟨_, h⟩ | ⟨_, _, _, h⟩
  · cases he.symm.trans h
  · have h' := he.symm.trans h
    simp only [plain.injEq] at h'
    have hl := congrArg List.length h'.2
    simp [inBraces, h'.1] at hl
  · cases he.symm.trans h

/-- What follows a segment could not be read as part of it. -/
theorem Begins.mayPrecede {t p r : Text} {g : Segment} (h : Begins t g (p ++ r))
    (hp : IsPlainText p) : MayPrecede g p := by
  obtain ⟨c, q, rfl⟩ := List.exists_cons_of_ne_nil hp.1
  have hc : c ≠ '$' := by rintro rfl; exact hp.2 (by simp)
  generalize hrest : c :: q ++ r = rest at h
  have hhead : c ∈ rest.head? := by simp [← hrest]
  cases h with
  | text _ _ hr => exact absurd (hr c hhead) hc
  | sigil hr =>
    refine ⟨fun q hq => ?_, fun _ x hx => ?_, fun name he => by simp at he⟩
    · cases hq
      simp [IsPlainText]
    · simp only [List.head?_cons, Option.mem_def, Option.some.injEq] at hx
      exact hx ▸ hr c hhead
  | bare hn hr =>
    refine ⟨fun q hq => by simp at hq, fun he => by simp at he, fun n he hl x hx => ?_⟩
    simp only [plain.injEq] at he
    obtain ⟨rfl, -⟩ := he
    simp only [List.head?_cons, Option.mem_def, Option.some.injEq] at hx
    rw [Name.byteSize_of_isValid hn] at hl
    rcases hr with hr | hr
    · omega
    · exact hx ▸ hr c hhead
  | @braces content _ hb =>
    have hs := source_ofContent content
    refine ⟨fun q hq hplain => ?_, fun he => ?_, fun n he => absurd he (ofContent_ne_bare _ _)⟩
    · rw [hq, source] at hs
      exact hplain.2 (by simp [hs, inBraces])
    · simp [he, source, inBraces] at hs

/-- Scanning any template yields a canonical list. -/
theorem canonical_scan (t : Text) : Canonical (scan t).segments := by
  induction t using scan_induction with
  | nil => exact .nil
  | unclosed u hu => simpa [scan_unclosed hu] using Canonical.nil
  | segment t g rest h ih =>
    rw [scan_of_begins h]
    refine .cons h.wellFormed (fun p hp hplain => ?_) ih
    change (scan rest).segments.head? = some (literal p) at hp
    obtain ⟨left, hr, -⟩ := exists_leaves rest
    obtain ⟨gs, hgs⟩ := List.head?_eq_some_iff.mp hp
    rw [hgs, sources_cons, source, List.append_assoc] at hr
    rw [hr] at h
    exact h.mayPrecede hplain

theorem Canonical.head_sources {gs : List Segment} (h : Canonical gs) {c : Char}
    (hc : c ∈ (sources gs).head?) :
    c = '$' ∨ ∃ p, gs.head? = some (literal p) ∧ IsPlainText p ∧ c ∈ p.head? := by
  cases h with
  | nil => simp at hc
  | @cons g gs hg =>
    cases hg with
    | @text p hp =>
      refine Or.inr ⟨p, rfl, hp, ?_⟩
      obtain ⟨d, q, rfl⟩ := List.exists_cons_of_ne_nil hp.1
      simpa [source] using hc
    | sigil => exact Or.inl (by simpa [source, eq_comm] using hc)
    | invalid => exact Or.inl (by simpa [source, inBraces, eq_comm] using hc)
    | bare => exact Or.inl (by simpa [source, eq_comm] using hc)
    | plain => exact Or.inl (by simpa [source, inBraces, eq_comm] using hc)
    | braced => exact Or.inl (by simpa [source, inBraces, eq_comm] using hc)

/-- The source of a canonical list begins with its first segment. -/
theorem Canonical.begins {g : Segment} {gs : List Segment} (hg : WellFormed g)
    (hp : ∀ p, gs.head? = some (literal p) → IsPlainText p → MayPrecede g p)
    (hgs : Canonical gs) : Begins (g.source ++ sources gs) g (sources gs) := by
  cases hg with
  | @text q hq =>
    refine .text hq.1 hq.2 fun c hc => ?_
    rcases hgs.head_sources hc with h | ⟨p, hgp, hplain, -⟩
    · exact h
    · exact absurd hq ((hp p hgp hplain).text q rfl)
  | sigil =>
    refine .sigil fun c hc => ?_
    rcases hgs.head_sources hc with rfl | ⟨p, hgp, hplain, hcp⟩
    · decide
    · exact (hp p hgp hplain).sigil rfl c hcp
  | @bare name hn =>
    refine .bare hn ?_
    rcases Nat.lt_or_ge name.byteSize Name.maxLength with hl | hl
    · refine Or.inr fun c hc => ?_
      rcases hgs.head_sources hc with rfl | ⟨p, hgp, hplain, hcp⟩
      · decide
      · exact (hp p hgp hplain).bare name rfl hl c hcp
    · rw [Name.byteSize_of_isValid hn] at hl
      exact Or.inl (Nat.le_antisymm (Name.length_le_of_isValid hn) hl)
  | invalid hc h hn =>
    have hb : Begins _ _ (sources gs) := .braces hc
    rwa [ofContent_literal h hn] at hb
  | plain hn =>
    have hb : Begins _ _ (sources gs) := .braces (balanced_of_isValid hn)
    rwa [ofContent_plain hn] at hb
  | @braced name operand op hn hb =>
    have hb : Begins _ _ (sources gs) := .braces ((balanced_braced_iff hn op operand).mpr hb)
    rwa [ofContent_braced hn] at hb

/-- A canonical list is read back from its source. -/
theorem scan_sources {gs : List Segment} (h : Canonical gs) : scan (sources gs) = ⟨gs, none⟩ := by
  induction h with
  | nil => rfl
  | cons hg hp hgs ih =>
    rw [sources_cons, scan_of_begins (hgs.begins hg hp), ih]
    rfl

/-- Scanning accepts exactly the grammar, and in one way: it yields canonical lists only, each of
them from its source; the templates scanned without an error are the sources of canonical lists,
and no two of these lists have the same source. -/
theorem scan_accepts_grammar :
    (∀ t, Canonical (scan t).segments) ∧
      (∀ gs, Canonical gs → scan (sources gs) = ⟨gs, none⟩) ∧
      (∀ t, (scan t).unclosed = none ↔ ∃ gs, Canonical gs ∧ sources gs = t) ∧
      ∀ gs hs, Canonical gs → Canonical hs → sources gs = sources hs → gs = hs := by
  refine ⟨canonical_scan, fun gs => scan_sources, fun t => ⟨fun h => ?_, ?_⟩, ?_⟩
  · exact ⟨_, canonical_scan t, sources_scan h⟩
  · rintro ⟨gs, hgs, rfl⟩
    rw [scan_sources hgs]
  · intro gs hs hgs hhs he
    have h := scan_sources hgs
    rw [he, scan_sources hhs] at h
    exact (Scan.mk.inj h).1.symm

theorem scan_accepts_grammar_mixed :
    let name := List.replicate Name.maxLength 'N'
    let gs := [plain name ('$' :: name), literal ['N'], literal ['$'], literal ['1'],
      braced ['A'] .fallback "{$B:=}".toList, literal (inBraces [])]
    Canonical gs ∧ scan (sources gs) = ⟨gs, none⟩ := by
  intro name gs
  have hs : (scan (sources gs)).segments = gs := by decide +kernel
  have hc : Canonical gs := hs ▸ canonical_scan (sources gs)
  exact ⟨hc, scan_accepts_grammar.2.1 gs hc⟩

end Segment
end EnvTemplate
