import EnvTemplate.Proofs.FileTree.Replacement
import EnvTemplate.Proofs.Stage.Beside

/-! Replacing a single file.  The new file is written beside the old one and then takes its name; where
that fails it is removed again.  So the tree afterwards is the tree with the directories made, and in it
either the new file or what was there before. -/
namespace EnvTemplate

open FileTree

variable {t u : FileTree}

theorem FileTree.rename_of_ne_dir {source target : Path} {v : Way} {e : Entry}
    (hv : t.Goes source v) (he : t.get? v.loc = some e) (hd : e ≠ .dir)
    (h : t.rename source target = .ok u) :
    ∃ w, t.Goes target w ∧ w.name.length ≤ maxName ∧ target.endsWithSlash = false ∧
      t.get? w.loc ≠ some .dir ∧ u = (t.clear v.loc).put w.loc e := by
  unfold Way.loc at he
  unfold rename at h
  cases ht : t.place target with
  | error e' => simp [hv.place, ht, bind, Except.bind] at h
  | ok new =>
    obtain ⟨dir, last, slash⟩ := new
    simp only [hv.place, ht, bind, Except.bind] at h
    cases last with
    | dot => simp at h
    | dotDot => simp at h
    | root => simp at h
    | name n =>
      obtain ⟨rfl, places, hw⟩ := exists_goes_of_place ht
      simp only [he] at h
      have hfile : ∀ {r : Except OsError FileTree},
          (if maxName < n.length then .error .nameTooLong
            else if target.endsWithSlash then .error .notDirectory
            else if isInside (dir ++ [n]) (v.dir ++ [v.name]) then .error .notEmpty
            else r) = .ok u →
          (r = .ok u → t.get? (dir ++ [n]) ≠ some .dir ∧
            u = (t.clear (v.dir ++ [v.name])).put (dir ++ [n]) e) →
          ∃ w, t.Goes target w ∧ w.name.length ≤ maxName ∧ target.endsWithSlash = false ∧
            t.get? w.loc ≠ some .dir ∧ u = (t.clear v.loc).put w.loc e := by
        intro r hr hput
        split at hr
        · cases hr
        next hl =>
        split at hr
        · cases hr
        next hs =>
        split at hr
        · cases hr
        exact ⟨_, hw, Nat.not_lt.mp hl, Bool.eq_false_iff.mpr hs, hput hr⟩
      cases e
      case dir => exact absurd rfl hd
      all_goals
        refine hfile h fun hr => ?_
        split at hr
        · cases hr
        next hnd => exact ⟨hnd, (Except.ok.inj hr).symm⟩

/-- A file is in place. -/
structure InPlace (made : FileTree) (p : Path) (content : Bytes) (w : Way) (u : FileTree) : Prop where
  goes : made.Goes p w
  isName : IsName w.name
  slash : p.endsWithSlash = false
  notDir : made.get? w.loc ≠ some .dir
  cwd : u.cwd = made.cwd
  get? (q : Loc) : u.get? q = if q = w.loc then some (.file content) else made.get? q

/-- A file is read where it was put, unless its path passes what it replaces. -/
theorem InPlace.read {made : FileTree} {p : Path} {content : Bytes} {w : Way}
    (h : InPlace made p content w u) (hp : w.loc ∉ w.places) : u.read p = .ok content := by
  have hg : u.Goes p w := h.goes.congr h.cwd fun q hq => by
    rw [h.get?, if_neg]
    rintro rfl
    exact hp hq
  have he : u.get? w.loc = some (.file content) := by rw [h.get?, if_pos rfl]
  have hs := hg.status_false h.slash h.isName.length he (by simp)
  simp [FileTree.read, hs, bind, Except.bind]

/-- How far a replacement comes: to the directories, to a temporary name, to a file of that name, or to
the end. -/
theorem replaceFile_eq (t : FileTree) (p : Path) (text : Text) :
    let made := (t.makeDirs p.beside).2
    (∃ f, replaceFile t p text = (.error f, made)) ∨
      ∃ temporary base, freshBeside made p temporaryStart = (temporary, base) ∧
        ((∃ f, replaceFile t p text = (.error f, base)) ∨
          ∃ written, base.create temporary (.file (Utf8.encode text)) = .ok written ∧
            ((∃ u, written.rename temporary p = .ok u ∧ replaceFile t p text = (.ok (), u)) ∨
              ∃ f, replaceFile t p text = (.error f, (written.remove temporary).2))) := by
  intro made
  cases hm : (t.makeDirs p.beside).1 with
  | error e =>
    have hmk : t.makeDirs p.beside = (.error e, made) := Prod.ext hm rfl
    exact .inl ⟨_, by simp only [replaceFile, makeParent, hmk, mapError_error]; rfl⟩
  | ok _ =>
    have hmk : t.makeDirs p.beside = (.ok (), made) := Prod.ext hm rfl
    right
    cases hf : freshBeside made p temporaryStart with
    | mk temporary base =>
      refine ⟨temporary, base, rfl, ?_⟩
      simp only [replaceFile, makeParent, hmk, mapError_ok, hf]
      cases hc : base.create temporary (.file (Utf8.encode text)) with
      | error e => exact .inl ⟨_, rfl⟩
      | ok written =>
        refine .inr ⟨written, rfl, ?_⟩
        cases hr : written.rename temporary p with
        | ok u => exact .inl ⟨u, rfl, by simp only [hr, mapError_ok]⟩
        | error e => exact .inr ⟨_, by simp only [hr, mapError_error]; rfl⟩

section Written

variable {base : FileTree} {p temporary : Path} {content : Bytes} {v : Way}

theorem exists_inPlace_of_rename (hv : base.Goes temporary v) (hn : base.get? v.loc = none)
    (h : (base.put v.loc (.file content)).rename temporary p = .ok u) :
    ∃ w, InPlace base p content w u := by
  have hv' := (Extends.put v.loc_ne_nil hn (.file content)).goes hv
  have he : (base.put v.loc (.file content)).get? v.loc = some (.file content) := by
    rw [get?_put v.loc_ne_nil, if_pos rfl]
  obtain ⟨w, hw, hl, hs, hd, rfl⟩ := rename_of_ne_dir hv' he (by simp) h
  refine ⟨w, ?_, hw.isName hl, hs, ?_, rfl, fun q => ?_⟩
  · refine hw.congr rfl fun q hq => ?_
    obtain ⟨_, _, hlead⟩ := hw.leads
    have hqv : q ≠ v.loc := by
      rintro rfl
      rcases hlead.passed _ hq with h | ⟨_, h⟩ <;> rw [he] at h <;> cases h
    rw [get?_put v.loc_ne_nil, if_neg hqv]
  · by_cases hwv : w.loc = v.loc
    · simp [hwv, hn]
    · rwa [get?_put v.loc_ne_nil, if_neg hwv] at hd
  · rw [get?_put w.loc_ne_nil, get?_clear v.loc_ne_nil, get?_put v.loc_ne_nil]
    split
    · rfl
    split
    · next hq => rw [hq, hn]
    · rfl

theorem get?_remove_written (hv : base.Goes temporary v) (hl : v.name.length ≤ maxName)
    (hs : temporary.endsWithSlash = false) (hn : base.get? v.loc = none) :
    ((base.put v.loc (.file content)).remove temporary).2.cwd = base.cwd ∧
      ∀ q, ((base.put v.loc (.file content)).remove temporary).2.get? q = base.get? q := by
  have he : (base.put v.loc (.file content)).get? v.loc = some (.file content) := by
    rw [get?_put v.loc_ne_nil, if_pos rfl]
  have hst : (base.put v.loc (.file content)).status true temporary = .ok (v.loc, .file content) :=
    (((Extends.put v.loc_ne_nil hn _).goes hv).status_eq_ok_iff (by simp [hs])).mpr
      ⟨rfl, hl, he, by simp [hs]⟩
  rw [remove_of_ne_dir hst (by simp)]
  refine ⟨(isPruned_cut v.loc_ne_nil _).cwd, fun q => ?_⟩
  rw [get?_cut v.loc_ne_nil, get?_put v.loc_ne_nil]
  by_cases hq : q = v.loc
  · rw [if_pos (.inl hq), hq, hn]
  · have hcov : ¬(base.put v.loc (.file content)).Covers v.loc q := by
      simp [Covers, hq, he]
    rw [if_neg hcov, if_neg hq]

end Written

theorem replaceFile_cases (t : FileTree) (p : Path) (text : Text) :
    let made := (t.makeDirs p.beside).2
    (replaceFile t p text).1 = .ok () ∧
        (∃ w, InPlace made p (Utf8.encode text) w (replaceFile t p text).2) ∨
      (∃ f, (replaceFile t p text).1 = .error f) ∧ (replaceFile t p text).2.cwd = made.cwd ∧
        ∀ q, (replaceFile t p text).2.get? q = made.get? q := by
  intro made
  rcases replaceFile_eq t p text with ⟨f, hr⟩ | ⟨temporary, base, hfresh, hrest⟩
  · rw [hr]
    exact .inr ⟨⟨f, rfl⟩, rfl, fun _ => rfl⟩
  obtain ⟨n, next, hf⟩ := freshBeside_eq made p temporaryStart
  obtain ⟨rfl, rfl⟩ := Prod.mk.inj (hfresh.symm.trans hf)
  rcases hrest with ⟨f, hr⟩ | ⟨written, hc, hrest⟩
  · rw [hr]
    exact .inr ⟨⟨f, rfl⟩, rfl, fun _ => rfl⟩
  obtain ⟨v, hv, hl, hn, rfl⟩ := create_eq_ok_iff.mp hc
  rcases hrest with ⟨u, hu, hr⟩ | ⟨f, hr⟩
  · rw [hr]
    obtain ⟨w, hw⟩ := exists_inPlace_of_rename hv hn hu
    exact .inl ⟨rfl, w, hw.goes.congr rfl fun _ _ => rfl, hw.isName, hw.slash, hw.notDir, hw.cwd,
      hw.get?⟩
  · have hname : Path.IsPiece (madeUp temporaryStart n) := isPiece_madeUp ⟨by decide, by decide⟩ n
    have hs : ((made.absolute p.beside).join (madeUp temporaryStart n)).endsWithSlash = false := by
      rw [Path.endsWithSlash_join _ hname.1, hname.endsWithSlash]
    rw [hr]
    exact .inr ⟨⟨f, rfl⟩, get?_remove_written hv hl hs hn⟩

end EnvTemplate
