import EnvTemplate.Proofs.FileTree.Twins
import EnvTemplate.Proofs.Stage.Prepare

/-! Where a stage is opened.  For a plain target this can be told beforehand: the stage is named by its
number, and it can be opened if no file is in the way and the name is free.  Then there are directories on
the way to it, and nothing else is changed. -/
namespace EnvTemplate

namespace Path

theorem exists_pieces_join (base : Path) {n : Bytes} (hn : IsPiece n) :
    ∃ init, pieces (base.join n) = init ++ [n] := by
  rw [join, if_neg (by simp [hn.isAbsolute])]
  split
  · next hb =>
    rw [Bool.or_eq_true] at hb
    rcases hb with hb | hb
    · obtain rfl : base = [] := by simpa using hb
      exact ⟨[], pieces_of_not_mem hn.2⟩
    · obtain ⟨q, rfl⟩ := endsWithSlash_iff.mp hb
      rw [List.append_assoc, List.singleton_append, pieces_append_slash, pieces_of_not_mem hn.2]
      exact ⟨_, rfl⟩
  · rw [pieces_append_slash, pieces_of_not_mem hn.2]
    exact ⟨_, rfl⟩

end Path

namespace Stage

open FileTree

variable {t u made : FileTree} {target : Path} {n : Nat}

/-- The path of a stage beside a target. -/
def pathFor (cwd : Loc) (target : Path) (n : Nat) : Path :=
  ((Path.fromRoot cwd).join target.beside).join (madeUp nameStart n)

def parentLoc (cwd : Loc) (target : Path) : Loc := cwd ++ target.names.dropLast

def stageLoc (cwd : Loc) (target : Path) (n : Nat) : Loc :=
  parentLoc cwd target ++ [madeUp nameStart n]

def targetLoc (cwd : Loc) (target : Path) : Loc := cwd ++ target.names

structure IsBeside (target dir : Path) : Prop where
  isAbsolute : dir.isAbsolute = false
  ne_nil : dir ≠ []
  check : checkPath dir = .ok ()
  noUp : ∀ n ∈ dir.names, n ≠ Path.dotDot
  straight : FileTree.straight dir.names = target.names.dropLast
  isPlain : dir = Path.dot ∧ target.names.dropLast = [] ∨ IsPlain dir ∧ dir.names = target.names.dropLast

theorem isBeside (hp : IsPlain target) (hne : target ≠ []) : IsBeside target target.beside := by
  obtain ⟨ns, m, hn⟩ := (List.eq_nil_or_concat target.names).resolve_left
    (Path.names_ne_nil hne hp.isAbsolute)
  rw [List.concat_eq_append] at hn
  obtain ⟨q, hq⟩ := Path.exists_parent? (p := target) (n := m) (by simp [hn])
    (hp.isName m (by simp [hn])).proper.1
  obtain ⟨hplain, hnames⟩ := hp.parent hq hn
  have hdrop : target.names.dropLast = ns := by rw [hn, List.dropLast_concat]
  have hb : target.beside = if q = [] then Path.dot else q := by
    rw [Path.beside, hq]
    cases q <;> rfl
  rw [hb]
  split
  · next he =>
    subst he
    obtain rfl : [] = ns := hnames
    exact ⟨rfl, by decide, rfl, by decide, hdrop ▸ rfl, .inl ⟨rfl, hdrop⟩⟩
  · next he =>
    have hproper : ∀ n ∈ q.names, IsProper n := fun n hm => (hplain.isName n hm).proper
    refine ⟨hplain.isAbsolute, he, hplain.checkPath he, fun n hm => (hproper n hm).2, ?_,
      .inr ⟨hplain, hnames.trans hdrop.symm⟩⟩
    rw [straight_eq hproper, hnames, hdrop]

/-- A stage can be opened: there is a way to its place, and its name is free. -/
structure CanOpen (t : FileTree) (target : Path) (n : Nat) : Prop where
  way {q : Loc} (h : q <+: parentLoc t.cwd target) : t.get? q = none ∨ t.get? q = some .dir
  check : checkPath (pathFor t.cwd target n) = .ok ()
  isName : IsName (madeUp nameStart n)
  free : t.get? (stageLoc t.cwd target n) = none

structure Opened (t : FileTree) (target : Path) (n : Nat) (u : FileTree) : Prop where
  cwd : u.cwd = t.cwd
  site : Site u (pathFor t.cwd target n) (stageLoc t.cwd target n)
  get? (q : Loc) : u.get? q =
    if q = stageLoc t.cwd target n ∨ t.get? q = none ∧ q <+: parentLoc t.cwd target then some .dir
    else t.get? q

theorem stageLoc_ne_nil (cwd : Loc) (target : Path) (n : Nat) : stageLoc cwd target n ≠ [] := by
  simp [stageLoc]

theorem not_stageLoc_isPrefix_parentLoc (cwd : Loc) (target : Path) (n : Nat) :
    ¬stageLoc cwd target n <+: parentLoc cwd target := by
  intro hp
  have hlen := hp.length_le
  rw [stageLoc, List.length_append, List.length_singleton] at hlen
  omega

theorem freshBeside_of_free {start : Bytes} {dir : Loc} {e : Entry}
    (hs : made.status false target.beside = .ok (dir, e))
    (hfree : made.get? (dir ++ [madeUp start made.nextName]) = none) :
    freshBeside made target start =
      ((made.absolute target.beside).join (madeUp start made.nextName),
        { made with nextName := made.nextName + 1 }) := by
  have hfind : ((List.range (made.entries.size + 1)).find? fun k =>
      (made.get? (dir ++ [madeUp start (made.nextName + k)])).isNone) = some 0 := by
    rw [List.range_succ_eq_map, List.find?_cons]
    simp [hfree]
  simp only [freshBeside, hs, freshName, hfind, Option.getD_some, Nat.add_zero]
  rfl

theorem names_pathFor (hw : t.WellFormed) (hb : IsBeside target target.beside) (n : Nat) :
    (pathFor t.cwd target n).names = (t.cwd ++ target.beside.names) ++ [madeUp nameStart n] := by
  have hn := isPiece_stageName n
  have habs := names_absolute hw target.beside
  rw [hb.isAbsolute, if_neg Bool.false_ne_true] at habs
  rw [pathFor, Path.names_join _ hn.isAbsolute, Path.names_of_not_mem hn.2 hn.1, ← habs, absolute]

theorem isAbsolute_pathFor (cwd : Loc) (target : Path) (n : Nat) :
    (pathFor cwd target n).isAbsolute = true := by
  rw [pathFor, Path.isAbsolute_join, Path.isAbsolute_join]
  simp [Path.fromRoot, Path.isAbsolute]

theorem isProper_of_mem_cwd (hw : t.WellFormed) : ∀ n ∈ t.cwd, IsProper n := fun n hn =>
  (hw.isName_of_mem (a := []) (by rw [List.nil_append, hw.cwd]; simp) hn).proper

theorem noUp_above (hw : t.WellFormed) (hb : IsBeside target target.beside) :
    (∀ n ∈ t.cwd ++ target.beside.names, n ≠ Path.dotDot) ∧
      straight (t.cwd ++ target.beside.names) = parentLoc t.cwd target := by
  have hcwd := isProper_of_mem_cwd hw
  refine ⟨fun n hn => ?_, ?_⟩
  · rcases List.mem_append.mp hn with hn | hn
    · exact (hcwd n hn).2
    · exact hb.noUp n hn
  · rw [straight_append, straight_eq hcwd, hb.straight, parentLoc]

theorem goes_pathFor (hw : u.WellFormed) (hb : IsBeside target target.beside)
    (hc : checkPath (pathFor u.cwd target n) = .ok ()) (hn : IsProper (madeUp nameStart n))
    (hd : u.get? (parentLoc u.cwd target) = some .dir) :
    ∃ places, (∀ q ∈ places, q <+: parentLoc u.cwd target) ∧
      u.Goes (pathFor u.cwd target n) ⟨places, parentLoc u.cwd target, madeUp nameStart n⟩ := by
  obtain ⟨hup, hstraight⟩ := noUp_above hw hb
  have hdir : u.get? ([] ++ straight (u.cwd ++ target.beside.names)) = some .dir := by
    rw [List.nil_append, hstraight]
    exact hd
  obtain ⟨places, hpre, hlead⟩ := exists_leads_straight hw hup hdir
  rw [List.nil_append, hstraight] at hpre hlead
  have horigin : origin u.cwd (pathFor u.cwd target n) = [] := by simp [origin, isAbsolute_pathFor]
  exact ⟨places, hpre, hc, hn, _, names_pathFor hw hb n, horigin ▸ hlead maxLinks⟩

theorem CanOpen.site (h : CanOpen t target n) (ht : t.WellFormed) (hb : IsBeside target target.beside)
    (hw : u.WellFormed) (hl : u.NoLinks) (hd : u.get? (stageLoc t.cwd target n) = some .dir) :
    Site u (pathFor t.cwd target n) (stageLoc t.cwd target n) := by
  obtain ⟨hup, hstraight⟩ := noUp_above ht hb
  have hname := h.isName
  refine ⟨hw, hl, hd, ⟨madeUp nameStart n, isAbsolute_pathFor .., Path.exists_pieces_join _ hname.piece,
    hname.piece, hname.proper.1⟩, h.check, fun m hm => ?_, ?_⟩
  · rw [names_pathFor ht hb] at hm
    rcases List.mem_append.mp hm with hm | hm
    · exact hup m hm
    · rw [List.mem_singleton.mp hm]
      exact hname.proper.2
  · have hlast : straight [madeUp nameStart n] = [madeUp nameStart n] :=
      straight_eq fun m hm => List.mem_singleton.mp hm ▸ hname.proper
    rw [names_pathFor ht hb, straight_append, hstraight, hlast, stageLoc]

theorem makeDirs_beside (hw : t.WellFormed) (hl : t.NoLinks) (hb : IsBeside target target.beside)
    (hway : ∀ q, q <+: parentLoc t.cwd target → t.get? q = none ∨ t.get? q = some .dir) :
    (t.makeDirs target.beside).1 = .ok () := by
  rcases hb.isPlain with ⟨hdot, hnil⟩ | ⟨hplain, hnames⟩
  · have hlead : Leads t maxLinks (origin t.cwd target.beside) target.beside.names t.cwd [] := by
      rw [hdot]
      exact .dot (.here _ _)
    exact congrArg Prod.fst (makeDirs_of_isDir (isDir_iff.mpr ⟨_, status_of_leads hb.check hlead⟩))
  · refine makeDirs_of_plain hw hl hplain fun q hq => hway q ?_
    rwa [hnames] at hq

theorem prepare_of_ok {path : Path} {next : FileTree} (hm : t.makeDirs target.beside = (.ok (), made))
    (hf : freshBeside made target nameStart = (path, next)) (hu : next.makeDir path = .ok u) :
    prepare t target = (.ok ⟨path, target⟩, u) := by
  simp only [prepare, makeParent, hm, mapError_ok, hf, hu]

/-- The directory that a target is in was made, and nothing else was done. -/
structure Begun (t : FileTree) (target : Path) (n : Nat) (made : FileTree) : Prop where
  wellFormed : made.WellFormed
  noLinks : made.NoLinks
  cwd : made.cwd = t.cwd
  nextName : made.nextName = n
  beside : made.status false target.beside = .ok (parentLoc t.cwd target, .dir)
  dir : made.get? (parentLoc t.cwd target) = some .dir
  get? (q : Loc) : made.get? q =
    if t.get? q = none ∧ q <+: parentLoc t.cwd target then some .dir else t.get? q

theorem CanOpen.begun (h : CanOpen t target n) (hw : t.WellFormed) (hl : t.NoLinks)
    (hb : IsBeside target target.beside) :
    ∃ made, FileTree.makeDirs { t with nextName := n } target.beside = (.ok (), made) ∧
      Begun t target n made := by
  let t' : FileTree := { t with nextName := n }
  have hw' : t'.WellFormed := hw.congr rfl fun _ => rfl
  have hl' : t'.NoLinks := hl
  have hok : (t'.makeDirs target.beside).1 = .ok () := makeDirs_beside hw' hl' hb fun q => h.way
  have hmade := made_makeDirs t' target.beside
  have hnext : (t'.makeDirs target.beside).2.nextName = n := nextName_go ..
  cases hm : t'.makeDirs target.beside with
  | mk r made =>
    rw [hm] at hok hmade hnext
    obtain rfl : r = .ok () := hok
    obtain ⟨hs, hd⟩ := hmade.status hw' hl' hb.noUp hb.isAbsolute hb.ne_nil
    have hget := hmade.get?_straight hw' hl' hb.noUp hb.isAbsolute hb.ne_nil
    have hparent : t'.cwd ++ straight target.beside.names = parentLoc t.cwd target := by
      rw [hb.straight, parentLoc]
    rw [hparent] at hs hd
    simp only [hparent] at hget
    exact ⟨made, rfl, hmade.wellFormed hw', hl'.gains hmade.gains, hmade.gains.cwd, hnext, hs, hd, hget⟩

theorem CanOpen.opened (h : CanOpen t target n) (hw : t.WellFormed) (hl : t.NoLinks)
    (hp : IsPlain target) (hne : target ≠ []) :
    ∃ u, prepare { t with nextName := n } target = (.ok ⟨pathFor t.cwd target n, target⟩, u) ∧
      Opened t target n u := by
  have hb := isBeside hp hne
  obtain ⟨made, hm, hbegun⟩ := h.begun hw hl hb
  have hcwd := hbegun.cwd
  have hfree : made.get? (stageLoc t.cwd target n) = none := by
    rw [hbegun.get?, if_neg fun hq => not_stageLoc_isPrefix_parentLoc _ _ _ hq.2]
    exact h.free
  have hfresh : freshBeside made target nameStart =
      (pathFor t.cwd target n, { made with nextName := made.nextName + 1 }) := by
    rw [freshBeside_of_free hbegun.beside (by rw [hbegun.nextName]; exact hfree), hbegun.nextName,
      absolute, hcwd, pathFor]
  let next : FileTree := { made with nextName := made.nextName + 1 }
  have hmw : next.WellFormed := hbegun.wellFormed.congr rfl fun _ => rfl
  have hml : next.NoLinks := show made.NoLinks from hbegun.noLinks
  obtain ⟨places, -, hgoes⟩ : ∃ places, (∀ q ∈ places, q <+: parentLoc t.cwd target) ∧
      next.Goes (pathFor t.cwd target n) ⟨places, parentLoc t.cwd target, madeUp nameStart n⟩ := by
    have hgoes := goes_pathFor (u := next) (n := n) hmw hb
    rw [show next.cwd = t.cwd from hcwd] at hgoes
    exact hgoes h.check h.isName.proper hbegun.dir
  have hmake : next.makeDir (pathFor t.cwd target n) = .ok (next.put (stageLoc t.cwd target n) .dir) :=
    create_eq_ok_iff.mpr ⟨_, hgoes, h.isName.length, hfree, rfl⟩
  have hloc := stageLoc_ne_nil t.cwd target n
  refine ⟨next.put (stageLoc t.cwd target n) .dir, prepare_of_ok hm hfresh hmake, hcwd, ?_, fun q => ?_⟩
  · refine h.site hw hb (hmw.put hbegun.dir h.isName (.inl rfl)) (hml.put hloc (by simp)) ?_
    rw [get?_put hloc, if_pos rfl]
  · have hq : next.get? q = _ := hbegun.get? q
    rw [get?_put hloc, hq]
    by_cases hq : q = stageLoc t.cwd target n
    · rw [if_pos hq, if_pos (.inl hq)]
    · simp only [hq, if_false, false_or]

theorem path_of_prepare {x : Stage} (h : (prepare t target).1 = .ok x) :
    x.path = (freshBeside (t.makeDirs target.beside).2 target nameStart).1 := by
  cases hm : t.makeDirs target.beside with
  | mk r made =>
    cases r with
    | error e =>
      simp only [prepare, makeParent, hm, mapError_error] at h
      cases h
    | ok _ =>
      simp only [prepare, makeParent, hm, mapError_ok] at h
      split at h
      · cases h
      · cases h
        rfl

theorem Opens.dir_eq {x : Stage} {v : Way} (hx : Opens t target x v made u) (hl : t.NoLinks)
    (hb : IsBeside target target.beside) : v.dir = parentLoc t.cwd target := by
  obtain ⟨-, places, hlead⟩ := leads_of_status hx.beside
  have horigin : origin made.cwd target.beside = t.cwd := by
    simp [origin, hb.isAbsolute, hx.gains.cwd]
  rw [horigin] at hlead
  rw [hlead.eq_straight (hl.gains hx.gains) hb.noUp, hb.straight, parentLoc]

/-- A stage that is opened where its name is free can be opened. -/
theorem canOpen_of_prepare (hw : t.WellFormed) (hl : t.NoLinks) (hp : IsPlain target)
    (hne : target ≠ []) {x : Stage} (h : (prepare { t with nextName := n } target).1 = .ok x)
    (hfree : t.get? (stageLoc t.cwd target n) = none) : CanOpen t target n := by
  have hb := isBeside hp hne
  let t' : FileTree := { t with nextName := n }
  have hw' : t'.WellFormed := hw.congr rfl fun _ => rfl
  have hl' : t'.NoLinks := hl
  rcases prepare_cases hw' target with ⟨⟨f, hf⟩, -⟩ | ⟨x', v, made, hx', hx⟩
  · rw [h] at hf
    cases hf
  obtain rfl : x = x' := Except.ok.inj (h.symm.trans hx')
  have hcwd : made.cwd = t.cwd := hx.gains.cwd
  have hnext : made.nextName = n := by
    rw [← hx.dirs]
    exact nextName_go ..
  have hdir : v.dir = parentLoc t.cwd target := hx.dir_eq hl' hb
  have hs := hx.beside
  rw [hdir] at hs
  have hmade : made.get? (parentLoc t.cwd target ++ [madeUp nameStart made.nextName]) = none := by
    rw [hnext]
    rcases hx.gains.get?_straight (hl'.gains hx.gains) hb.noUp hb.isAbsolute (stageLoc t.cwd target n) with
      he | ⟨-, -, hpre⟩
    · exact he.trans hfree
    · rw [hb.straight] at hpre
      exact absurd hpre (not_stageLoc_isPrefix_parentLoc t.cwd target n)
  have hpath : x.path = (made.absolute target.beside).join (madeUp nameStart n) := by
    rw [path_of_prepare h, hx.dirs, freshBeside_of_free hs hmade, hnext]
  have hgoes := hx.goes
  rw [hpath] at hgoes
  have hname := (hgoes.beside hx.wellFormed (isPiece_stageName n)).1
  have hcheck := hgoes.check
  rw [absolute, hcwd] at hcheck
  refine ⟨fun {q} hq => ?_, hcheck, hname ▸ hx.isName, hfree⟩
  have hd : made.get? q = some .dir := by
    obtain ⟨rest, hrest⟩ := hq
    have hparent := hx.goes.get?_dir hx.wellFormed
    rw [hdir, ← hrest] at hparent
    by_cases hr : rest = []
    · rwa [hr, List.append_nil] at hparent
    · exact hx.wellFormed.above hr (by rw [hparent]; simp)
  rcases hx.gains.get? q with he | ⟨hnone, -⟩
  · exact .inr (he.symm.trans hd)
  · exact .inl hnone

end Stage
end EnvTemplate
