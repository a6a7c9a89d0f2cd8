import EnvTemplate.Proofs.FileTree.Replacement
import EnvTemplate.Proofs.Stage.Beside

/-! Opening a stage, and discarding it.  A stage is a new directory beside its target.  As long as
everything else stays as it is, its path leads to it, and when it is discarded nothing is left of it. -/
namespace EnvTemplate
namespace Stage

open FileTree

variable {t made u : FileTree} {out : Path} {x : Stage} {v : Way}

/-- A stage is new in a tree: `made` is the tree without it, with the directories that it needs. -/
structure Opens (t : FileTree) (out : Path) (x : Stage) (v : Way) (made u : FileTree) : Prop where
  target : x.target = out
  dirs : (t.makeDirs out.beside).2 = made
  gains : Gains out.beside t made
  wellFormed : made.WellFormed
  goes : made.Goes x.path v
  absolute : x.path.isAbsolute = true
  slash : x.path.endsWithSlash = false
  isName : IsName v.name
  fresh : made.get? v.loc = none
  beside : made.status false out.beside = .ok (v.dir, .dir)
  cwd : u.cwd = made.cwd
  get? (q : Loc) : u.get? q = if q = v.loc then some .dir else made.get? q

theorem beside_ne_nil (p : Path) : p.beside ≠ [] := by
  unfold Path.beside
  split <;> simp [Path.dot]

theorem isPiece_stageName (n : Nat) : Path.IsPiece (madeUp nameStart n) :=
  isPiece_madeUp ⟨by decide, by decide⟩ n

/-- A preparation opens a stage, or fails and makes directories at most. -/
theorem prepare_cases (hw : t.WellFormed) (out : Path) :
    (∃ f, (prepare t out).1 = .error f) ∧ Gains out.beside t (prepare t out).2 ∨
      ∃ x v made, (prepare t out).1 = .ok x ∧ Opens t out x v made (prepare t out).2 := by
  have hmade := made_makeDirs t out.beside
  cases hm : t.makeDirs out.beside with
  | mk r made =>
  rw [hm] at hmade
  cases r with
  | error e =>
    simp only [prepare, makeParent, hm, mapError_error]
    exact .inl ⟨⟨_, rfl⟩, hmade.gains⟩
  | ok _ =>
    obtain ⟨n, next, hf⟩ := freshBeside_eq made out nameStart
    simp only [prepare, makeParent, hm, mapError_ok, hf]
    cases hc : FileTree.makeDir { made with nextName := next }
        ((made.absolute out.beside).join (madeUp nameStart n)) with
    | error e => exact .inl ⟨⟨_, rfl⟩, hmade.gains.congr rfl fun _ => rfl⟩
    | ok u =>
      right
      obtain ⟨v, hg, hl, hn, rfl⟩ := create_eq_ok_iff.mp hc
      have hmw : made.WellFormed := hmade.wellFormed hw
      have hgm : made.Goes ((made.absolute out.beside).join (madeUp nameStart n)) v :=
        hg.congr rfl fun _ _ => rfl
      have hname := isPiece_stageName n
      obtain ⟨-, places, hlead⟩ := hgm.beside hmw hname
      obtain ⟨loc, hs⟩ := isDir_iff.mp (hmade.isDir rfl (beside_ne_nil out))
      obtain ⟨-, _, hlead'⟩ := leads_of_status hs
      obtain rfl : loc = v.dir := (hlead'.unique hlead).1
      refine ⟨_, v, made, rfl, rfl, congrArg Prod.snd hm, hmade.gains, hmw, hgm, ?_, ?_,
        hgm.isName hl, hn, hs, rfl, ?_⟩
      · rw [Path.isAbsolute_join, isAbsolute_absolute, Bool.or_true]
      · rw [Path.endsWithSlash_join _ hname.1, hname.endsWithSlash]
      · exact fun q => get?_put v.loc_ne_nil ..

/-! ### A stage in use -/

/-- A tree with a stage in it: inside it there are no links, and all else is as without it. -/
structure Holds (v : Way) (made u : FileTree) : Prop where
  wellFormed : u.WellFormed
  cwd : u.cwd = made.cwd
  stage : u.get? v.loc = some .dir
  outside {q : Loc} (h : ¬v.loc <+: q) : u.get? q = made.get? q
  noLink {q : Loc} (h : v.loc <+: q) (p : Path) : u.get? q ≠ some (.link p)

namespace Opens

theorem get?_made_eq_none (h : Opens t out x v made u) {q : Loc} (hq : v.loc <+: q) :
    made.get? q = none := by
  cases he : made.get? q with
  | none => rfl
  | some e => exact absurd h.fresh (h.wellFormed.get?_ne_none_of_prefix hq (by simp [he]))

theorem get?_eq_none (h : Opens t out x v made u) {q : Loc} (hq : v.loc <+: q) :
    t.get? q = none := by
  cases he : t.get? q with
  | none => rfl
  | some e =>
    have hm := h.gains.toExtends.get? (q := q) (by simp [he])
    simp [h.get?_made_eq_none hq, he] at hm

theorem holds (h : Opens t out x v made u) : Holds v made u := by
  have hput : u.WellFormed := by
    refine (h.wellFormed.put (e := .dir) (h.goes.get?_dir h.wellFormed) h.isName (.inl rfl)).congr
      h.cwd fun q => ?_
    rw [h.get?, ← Way.loc, get?_put v.loc_ne_nil]
  refine ⟨hput, h.cwd, by rw [h.get?, if_pos rfl], fun hq => ?_, fun {q} hq p => ?_⟩
  · rw [h.get?, if_neg]
    rintro rfl
    exact hq (List.prefix_refl _)
  · rw [h.get?]
    split
    · simp
    · simp [h.get?_made_eq_none hq]

variable {w : FileTree}

/-- A tree with a stage in it has all that the tree without it has. -/
theorem extends_of_holds (h : Opens t out x v made u) (hw : Holds v made w) : Extends made w :=
  ⟨hw.cwd, fun hq => hw.outside fun hp => hq (h.get?_made_eq_none hp)⟩

theorem aside (h : Opens t out x v made u) {q : Loc} (hq : q ∈ v.places) : ¬v.loc <+: q :=
  fun hp => h.goes.get?_ne_none q hq (h.get?_made_eq_none hp)

theorem goes_of_holds (h : Opens t out x v made u) (hw : Holds v made w) : w.Goes x.path v :=
  h.goes.congr hw.cwd fun _ hq => hw.outside (h.aside hq)

theorem goes_target (h : Opens t out x v made u) (hw : Holds v made w) {z : Way}
    (hz : w.Goes x.target z) : v.dir = z.dir ∧ ∀ q ∈ z.places, ¬v.loc <+: q := by
  have hlead := hz.leads_beside
  obtain ⟨-, places, hmade⟩ := leads_of_status h.beside
  have haside : ∀ q ∈ places, ¬v.loc <+: q := fun q hq hp =>
    hmade.get?_ne_none q hq (h.get?_made_eq_none hp)
  rw [h.target, hw.cwd] at hlead
  obtain ⟨hdir, hplaces⟩ :=
    (hmade.congr fun q hq => hw.outside (haside q hq)).unique hlead
  exact ⟨hdir, hplaces ▸ haside⟩

theorem discard (h : Opens t out x v made u) (hw : Holds v made w) :
    (x.discard w).cwd = made.cwd ∧ ∀ q, (x.discard w).get? q = made.get? q := by
  have hg := h.goes_of_holds hw
  have hs : w.status true x.path = .ok (v.loc, .dir) :=
    (hg.status_eq_ok_iff (by simp [h.slash])).mpr ⟨rfl, h.isName.length, hw.stage, fun _ => rfl⟩
  have hr := hg.remove_eq hs hw.stage fun q hq hc => h.aside hq hc.isPrefix
  rw [Stage.discard, hr]
  refine ⟨(isPruned_cut v.loc_ne_nil w).cwd.trans hw.cwd, fun q => ?_⟩
  rw [get?_cut v.loc_ne_nil]
  split
  · next hc => rw [h.get?_made_eq_none hc.isPrefix]
  · next hc =>
    refine hw.outside fun hp => hc ?_
    by_cases hq : q = v.loc
    · exact .inl hq
    · exact .inr ⟨hw.stage, isInside_iff.mpr ⟨hp, Ne.symm hq⟩⟩

theorem status_eq_error (h : Opens t out x v made u) (hw : Extends w made) :
    ∃ e, w.status true x.path = .error e := by
  cases hs : w.status true x.path with
  | error e => exact ⟨e, rfl⟩
  | ok s =>
    obtain ⟨-, -, he, -⟩ := (h.goes.status_eq_ok_iff (by simp [h.slash])).mp (hw.status hs)
    simp [h.fresh] at he

end Opens
end Stage
end EnvTemplate
