import EnvTemplate.Proofs.Stage.Later

/-! Replacing a file changes one place or none.  All else that is new are directories that the beginnings
of the path name; so no temporary file is left, and what a link at the path led to is not touched. -/
namespace EnvTemplate

open FileTree

variable {t made r : FileTree} {p : Path} {content : Bytes} {w : Way}

/-- Directories were made that beginnings of a path name, and nothing else was changed. -/
structure MakesWay (p : Path) (t made : FileTree) : Prop where
  cwd : made.cwd = t.cwd
  kept {q : Loc} (h : t.get? q ≠ none) : made.get? q = t.get? q
  new {q : Loc} (h : t.get? q = none) (hq : made.get? q ≠ none) :
    made.get? q = some .dir ∧ ∃ a v, a <+: p ∧ made.Goes a v ∧ v.loc = q

theorem makesWay_of_gains (h : Gains p.beside t made) : MakesWay p t made where
  cwd := h.cwd
  kept := h.toExtends.get?
  new {q} hn hq := by
    rcases h.get? q with he | ⟨-, hd, a, v, ha, hg, hloc⟩
    · exact absurd (he.trans hn) hq
    have hpre : a <+: p := ha.isPrefix_of_beside.resolve_right fun hdots => by
      obtain ⟨names, hnames, -⟩ := hg.leads
      exact hg.proper.1 (hdots v.name (by simp [hnames]))
    exact ⟨hd, a, v, hpre, hg, hloc⟩

namespace MakesWay

theorem congr (h : MakesWay p t made) (hc : r.cwd = made.cwd) (hr : ∀ q, r.get? q = made.get? q) :
    MakesWay p t r where
  cwd := hc.trans h.cwd
  kept {q} hq := (hr q).trans (h.kept hq)
  new {q} hn hq := by
    rw [hr] at hq ⊢
    obtain ⟨hd, a, v, ha, hg, hloc⟩ := h.new hn hq
    exact ⟨hd, a, v, ha, hg.congr hc fun q _ => hr q, hloc⟩

theorem get?_of_file (h : MakesWay p t made) {q : Loc} (hq : made.get? q = some (.file content)) :
    t.get? q = some (.file content) := by
  cases ht : t.get? q with
  | some e =>
    rw [h.kept (by simp [ht]), ht] at hq
    exact hq
  | none =>
    obtain ⟨hd, -⟩ := h.new ht (by simp [hq])
    rw [hd] at hq
    cases hq

end MakesWay

/-- A file is in place in a tree to which nothing but directories were added before. -/
structure IsReplaced (t made : FileTree) (p : Path) (content : Bytes) (w : Way) (r : FileTree) : Prop
    extends InPlace made p content w r where
  way : MakesWay p t made
  kept {q : Loc} (h : t.get? q ≠ none) (hq : q ≠ w.loc) : r.get? q = t.get? q
  new {q : Loc} (h : t.get? q = none) (hr : r.get? q ≠ none) (hq : q ≠ w.loc) :
    r.get? q = some .dir ∧ ∃ a v, a <+: p ∧ made.Goes a v ∧ v.loc = q
  /-- The path leads to the file, unless it passes what is replaced. -/
  leads (h : w.loc ∉ w.places) : r.status true p = .ok (w.loc, .file content) ∧ r.read p = .ok content
  /-- What a link at the path led to is as it was. -/
  pointee {target : Path} {loc : Loc} {e : Entry} (hl : t.get? w.loc = some (.link target))
    (hs : t.status false p = .ok (loc, e)) : r.get? loc = some e

theorem InPlace.isReplaced (h : InPlace made p content w r) (hw : t.WellFormed)
    (hway : MakesWay p t made) : IsReplaced t made p content w r := by
  have hother : ∀ {q}, q ≠ w.loc → r.get? q = made.get? q := fun hq => by rw [h.get?, if_neg hq]
  have hkept : ∀ {q}, t.get? q ≠ none → q ≠ w.loc → r.get? q = t.get? q := fun hq hne =>
    (hother hne).trans (hway.kept hq)
  refine { h with way := hway, kept := hkept, new := ?_, leads := ?_, pointee := ?_ }
  · intro q hn hr hne
    rw [hother hne] at hr ⊢
    exact hway.new hn hr
  · intro hp
    have hg : r.Goes p w := h.goes.congr h.cwd fun q hq => hother fun heq => hp (heq ▸ hq)
    have hfile : r.get? w.loc = some (.file content) := by rw [h.get?, if_pos rfl]
    exact ⟨(hg.status_eq_ok_iff (by simp [h.slash])).mpr
      ⟨rfl, h.isName.length, hfile, by simp [h.slash]⟩, h.read hp⟩
  · intro target loc e hl hs
    obtain ⟨he, hlink⟩ := get?_of_status hw hs
    have hne : loc ≠ w.loc := by
      rintro rfl
      rw [hl] at he
      exact hlink rfl target (Option.some.inj he).symm
    rw [hkept (by simp [he]) hne, he]

/-- Replacing a file replaces what its path names, or it fails and replaces nothing.  No other file is new
afterwards. -/
theorem replaceFile_one_or_none (hw : t.WellFormed) (p : Path) (text : Text) :
    let made := (t.makeDirs p.beside).2
    let r := (replaceFile t p text).2
    ((replaceFile t p text).1 = .ok () ∧ (∃ w, IsReplaced t made p (Utf8.encode text) w r) ∨
        (∃ f, (replaceFile t p text).1 = .error f) ∧ MakesWay p t r) ∧
      ∀ q content, r.get? q = some (.file content) → t.get? q ≠ some (.file content) →
        (replaceFile t p text).1 = .ok () ∧ ∃ w, made.Goes p w ∧ w.loc = q := by
  intro made r
  have hway : MakesWay p t made := makesWay_of_gains (made_makeDirs t p.beside).gains
  rcases replaceFile_cases t p text with ⟨hok, w, hin⟩ | ⟨hf, hcwd, hget⟩
  · refine ⟨.inl ⟨hok, w, hin.isReplaced hw hway⟩, fun q content hq hne => ⟨hok, w, hin.goes, ?_⟩⟩
    by_cases heq : q = w.loc
    · exact heq.symm
    · rw [hin.get?, if_neg heq] at hq
      exact absurd (hway.get?_of_file hq) hne
  · have hr : MakesWay p t r := hway.congr hcwd hget
    exact ⟨.inr ⟨hf, hr⟩, fun q content hq hne => absurd (hr.get?_of_file hq) hne⟩

open Stage.LinkedOutput

theorem replaceFile_one_or_none_link :
    let p := Path.ofText "n/m/../../l".toList
    let text := "new".toList
    let made := (before.makeDirs p.beside).2
    let r := (replaceFile before p text).2
    before.WellFormed ∧ (replaceFile before p text).1 = .ok () ∧
      (((replaceFile before p text).1 = .ok () ∧ (∃ w, IsReplaced before made p (Utf8.encode text) w r) ∨
          (∃ f, (replaceFile before p text).1 = .error f) ∧ MakesWay p before r) ∧
        ∀ q content, r.get? q = some (.file content) → before.get? q ≠ some (.file content) →
          (replaceFile before p text).1 = .ok () ∧ ∃ w, made.Goes p w ∧ w.loc = q) ∧
      r.get? [l] = some (.file (Utf8.encode text)) ∧ r.get? [Path.ofText ['n']] = some .dir ∧
      r.get? [d, out, d] = some (.file (Utf8.encode "old".toList)) := by
  intro p text made r
  have hok : (replaceFile before p text).1 = .ok () := toOption_eq_some_iff.mp (by decide +kernel)
  exact ⟨wellFormed_before, hok, replaceFile_one_or_none wellFormed_before p text, by decide +kernel,
    by decide +kernel, by decide +kernel⟩

/-- A path that passes the link that it names does not lead to the file that takes the link's place. -/
theorem replaceFile_hides_file :
    let p := Path.ofText "l/../l".toList
    let text := "new".toList
    let r := replaceFile before p text
    before.WellFormed ∧ r.1 = .ok () ∧ r.2.get? [l] = some (.file (Utf8.encode text)) ∧
      (∃ e, r.2.status true p = .error e) ∧ ∃ e, r.2.read p = .error e := by
  intro p text r
  have hok : r.1 = .ok () := toOption_eq_some_iff.mp (by decide +kernel)
  have hstatus : (r.2.status true p).toOption = none := by decide +kernel
  have hread : (r.2.read p).toOption = none := by decide +kernel
  exact ⟨wellFormed_before, hok, by decide +kernel, toOption_eq_none_iff.mp hstatus,
    toOption_eq_none_iff.mp hread⟩

end EnvTemplate
