import EnvTemplate.Proofs.FileTree.Twins
import EnvTemplate.Proofs.Stage.Beside

/-! Files that are written into a stage.  What is written depends on what is in the stage only, and changes
nothing outside it. -/
namespace EnvTemplate
namespace FileTree

variable {t t' u u' : FileTree} {base base' p : Path} {loc loc' s : Loc} {ns : List Bytes}

theorem Grown.trans {v v' : FileTree} (h : Grown base base' loc loc' t t' u u')
    (h' : Grown base base' loc loc' u u' v v') : Grown base base' loc loc' t t' v v' :=
  ⟨h'.twins, h.within.trans h'.within, h.within'.trans h'.within'⟩

/-- What the same operation comes to in both trees: the same answer, and changes in the two directories
only. -/
structure Alike (base base' : Path) (loc loc' : Loc) (t t' : FileTree)
    (r r' : Except OsError Unit × FileTree) : Prop where
  answer : r.1 = r'.1
  grown : Grown base base' loc loc' t t' r.2 r'.2

theorem Alike.of_grown {r r' : Except OsError Unit × FileTree} (h : Grown base base' loc loc' t t' u u')
    (hr : Alike base base' loc loc' u u' r r') : Alike base base' loc loc' t t' r r' :=
  ⟨hr.answer, h.trans hr.grown⟩

/-! ### Making directories in twins -/

namespace Twins

theorem makeLast (h : Twins base base' loc loc' t t') (hp : p ≠ []) (habs : p.isAbsolute = false)
    (hstays : Path.stays 0 p.names = true) :
    Alike base base' loc loc' t t' (t.makeLast (base.join p)) (t'.makeLast (base'.join p)) := by
  unfold FileTree.makeLast
  rcases h.create hp habs hstays (e := .dir) (by simp) with ⟨e, hm, hm'⟩ | ⟨u, u', hm, hm', hgrown⟩
  · simp only [makeDir, hm, hm', h.isDir hp habs hstays]
    exact ⟨rfl, h.refl_grown⟩
  · simp only [makeDir, hm, hm']
    exact ⟨rfl, hgrown⟩

end Twins

theorem Site.parent? (h : Site t base loc) (habs : p.isAbsolute = false)
    (ht : Path.trim (Path.pieces p) ≠ []) :
    (base.join p).parent? =
      some (if Path.above p = [] then base else base.join (Path.unite (Path.above p))) := by
  obtain ⟨n, hn⟩ := h.named
  rw [Path.parent?_join hn habs ht]
  split
  · rfl
  · next ha => rw [hn.join (Path.isAbsolute_above habs ha)]

theorem Site.ne_nil (h : Site t base loc) : base ≠ [] := (checkPath_eq_ok_iff.mp h.check).2.1

theorem Site.join_ne_nil (h : Site t base loc) (p : Path) : base.join p ≠ [] := by
  intro hp
  have habs := Path.isAbsolute_join base p
  rw [hp, h.isAbsolute, Bool.or_true] at habs
  cases habs

namespace Twins

theorem go_of_missing (h : Twins base base' loc loc' t t') (hp : p ≠ []) (habs : p.isAbsolute = false)
    (hstays : Path.stays 0 p.names = true) {n : Nat}
    (hmissing : t.makeDir (base.join p) = .error .notFound →
      t'.makeDir (base'.join p) = .error .notFound →
        Alike base base' loc loc' t t' (makeDirs.go n t (base.join p)) (makeDirs.go n t' (base'.join p))) :
    Alike base base' loc loc' t t' (makeDirs.go n t (base.join p)) (makeDirs.go n t' (base'.join p)) := by
  have hne := h.site.join_ne_nil p
  have hne' := h.site'.join_ne_nil p
  rcases h.create hp habs hstays (e := .dir) (by simp) with ⟨e, hm, hm'⟩ | ⟨u, u', hm, hm', hgrown⟩
  · by_cases he : e = .notFound
    · subst he
      exact hmissing hm hm'
    · rw [go_of_error hne hm he, go_of_error hne' hm' he]
      exact h.makeLast hp habs hstays
  · rw [go_of_ok hne hm, go_of_ok hne' hm']
    exact ⟨rfl, hgrown⟩

theorem go (h : Twins base base' loc loc' t t') (habs : p.isAbsolute = false)
    (hstays : Path.stays 0 p.names = true) (ht : Path.trim (Path.pieces p) ≠ []) (n : Nat) :
    Alike base base' loc loc' t t' (makeDirs.go n t (base.join p)) (makeDirs.go n t' (base'.join p)) := by
  induction n generalizing p with
  | zero =>
    have hp : p ≠ [] := fun hp => ht (hp ▸ rfl)
    refine h.go_of_missing hp habs hstays fun hm hm' => ?_
    rw [go_zero_of_notFound (h.site.join_ne_nil p) hm, go_zero_of_notFound (h.site'.join_ne_nil p) hm']
    exact ⟨rfl, h.refl_grown⟩
  | succ n ih =>
    have hp : p ≠ [] := fun hp => ht (hp ▸ rfl)
    refine h.go_of_missing hp habs hstays fun hm hm' => ?_
    rw [go_of_notFound (h.site.join_ne_nil p) hm (h.site.parent? habs ht),
      go_of_notFound (h.site'.join_ne_nil p) hm' (h.site'.parent? habs ht)]
    by_cases ha : Path.above p = []
    · rw [if_pos ha, if_pos ha, go_of_isDir h.site.isDir, go_of_isDir h.site'.isDir]
      exact h.makeLast hp habs hstays
    · rw [if_neg ha, if_neg ha]
      obtain ⟨rest, hrest⟩ := Path.names_above ha
      have habove := ih (Path.isAbsolute_above habs ha) (Path.stays_append (hrest ▸ hstays))
        (by rwa [Path.trim_pieces_above ha])
      cases hr : makeDirs.go n t (base.join (Path.unite (Path.above p))) with
      | mk r u =>
        cases hr' : makeDirs.go n t' (base'.join (Path.unite (Path.above p))) with
        | mk r' u' =>
          rw [hr, hr'] at habove
          obtain rfl : r = r' := habove.answer
          cases r with
          | error e => exact habove
          | ok _ => exact (habove.grown.twins.makeLast hp habs hstays).of_grown habove.grown

theorem makeDirs (h : Twins base base' loc loc' t t') (habs : p.isAbsolute = false)
    (hstays : Path.stays 0 p.names = true) (ht : Path.trim (Path.pieces p) ≠ []) :
    Alike base base' loc loc' t t' (t.makeDirs (base.join p)) (t'.makeDirs (base'.join p)) := by
  have hlen : (base.join p).length = (base'.join p).length := by
    rw [h.site.join habs, h.site'.join habs, List.length_append, List.length_append, h.length]
  unfold FileTree.makeDirs
  rw [hlen]
  exact h.go habs hstays ht _

theorem write (h : Twins base base' loc loc' t t') (hp : p ≠ []) (habs : p.isAbsolute = false)
    (hstays : Path.stays 0 p.names = true) (content : Bytes) :
    (∃ error, t.write (base.join p) content = .error error ∧
      t'.write (base'.join p) content = .error error) ∨
      ∃ u u', t.write (base.join p) content = .ok u ∧ t'.write (base'.join p) content = .ok u' ∧
        Grown base base' loc loc' t t' u u' := by
  obtain ⟨r, hr, hr'⟩ := h.place hp habs hstays
  obtain ⟨spot, hs, hs'⟩ := h.resolve hp habs hstays
  unfold FileTree.write
  rw [hr, hr']
  cases r with
  | error error => exact .inl ⟨error, rfl, rfl⟩
  | ok place =>
    simp only [Except.map, Place.below, bind, Except.bind]
    split
    · exact .inl ⟨_, rfl, rfl⟩
    rw [hs, hs']
    cases spot with
    | error error => exact .inl ⟨error, rfl, rfl⟩
    | ok spot =>
      have hspot := stands_of_resolve h.site.wellFormed h.site.noLinks hs
      cases spot with
      | absent s n =>
        obtain ⟨hd, hnone, hn⟩ := hspot
        exact .inr ⟨_, _, rfl, rfl, h.put hd hn (.inr (by rw [hnone]; simp)) (by simp)⟩
      | present s e =>
        cases e with
        | dir => exact .inl ⟨.isDirectory, rfl, rfl⟩
        | link target => exact absurd hspot (h.site.noLinks _ target)
        | file old => exact .inr ⟨_, _, rfl, rfl, h.replace hspot content⟩

end Twins

theorem leads_dots (n : Nat) (dir : Loc) (h : ∀ d ∈ ns, d = Path.dot) : Leads t n dir ns dir [] := by
  induction ns with
  | nil => exact .here n dir
  | cons d ns ih =>
    obtain rfl := h d List.mem_cons_self
    exact .dot (ih fun d hd => h d (List.mem_cons_of_mem _ hd))

end FileTree

namespace Path

variable {base p : Path} {n : Bytes}

theorem parent?_join_of_dots (h : IsNamed base n) (hp : p.isAbsolute = false)
    (ht : trim (pieces p) = []) : (base.join p).parent? = base.parent? := by
  obtain ⟨b, rfl⟩ := exists_cons_of_isAbsolute h.isAbsolute
  have habs : isAbsolute (slash :: (b ++ slash :: p)) = true := rfl
  have habs' : isAbsolute (slash :: b) = true := rfl
  rw [h.join hp, List.cons_append, parent?, parent?, pieces_cons_slash, pieces_cons_slash, habs, habs',
    pieces_append_slash]
  simp only [if_true]
  rw [trim_append_of_nil ht]

theorem names_of_dots (ht : trim (pieces p) = []) : ∀ d ∈ p.names, d = dot := fun d hd => by
  obtain ⟨hm, hne⟩ := List.mem_filter.mp hd
  exact trim_eq_nil ht hm (by simpa using hne)

end Path

namespace Stage

open FileTree

def write (x : Stage) (t : FileTree) (p : Path) (text : Text) : Except OsError Unit × FileTree :=
  let file := x.path.join p
  match t.makeDirs file.beside with
  | (.error e, t) => (.error e, t)
  | (.ok (), t) =>
    match t.write file (Utf8.encode text) with
    | .error e => (.error e, t)
    | .ok t => (.ok (), t)

variable {t t' : FileTree} {x x' : Stage} {p : Path} {loc loc' : Loc}

theorem write_eq (x : Stage) (t : FileTree) (p : Path) (text : Text) :
    (x.write t p text).2 =
      match t.makeDirs (x.path.join p).beside with
      | (.error _, u) => u
      | (.ok (), u) =>
        match u.write (x.path.join p) (Utf8.encode text) with
        | .error _ => u
        | .ok v => v := by
  simp only [write]
  split
  · rfl
  · split <;> rfl

theorem exists_parent?_isDir (h : Site t x.path loc) :
    ∃ q, x.path.parent? = some q ∧ q ≠ [] ∧ t.isDir q = true := by
  obtain ⟨n, hn⟩ := h.named
  obtain ⟨init, hpieces⟩ := hn.pieces
  have hmem : n ∈ x.path.names := by
    rw [Path.names, hpieces]
    simp [hn.isPiece.1]
  obtain ⟨q, hq⟩ := Path.exists_parent? hmem hn.ne_dot
  have hparent := Path.isParent_of_parent? hq
  have habs : q.isAbsolute = true := hparent.isAbsolute.trans h.isAbsolute
  have hne : q ≠ [] := by
    rintro rfl
    cases habs
  obtain ⟨hnul, -, hlen⟩ := checkPath_eq_ok_iff.mp h.check
  have hpre := Path.parent?_isPrefix hq
  have hcheck : checkPath q = .ok () :=
    checkPath_eq_ok_iff.mpr ⟨fun h0 => hnul (hpre.subset h0), hne, Nat.le_trans hpre.length_le hlen⟩
  obtain ⟨places, hl⟩ := h.leads
  obtain ⟨dots, last, more, -, -, hnames⟩ := hparent.names
  have hlead := hl maxLinks
  rw [hnames, List.append_assoc] at hlead
  obtain ⟨_, mid, before, _, -, hb, -, -⟩ := hlead.split
  have horigin : origin t.cwd q = [] := by simp [origin, habs]
  exact ⟨q, hq, hne, isDir_iff.mpr ⟨mid, status_of_leads hcheck (horigin ▸ hb)⟩⟩

theorem beside_eq {p q : Path} (h : p.parent? = some q) (hq : q ≠ []) : p.beside = q := by
  obtain ⟨b, q, rfl⟩ := List.exists_cons_of_ne_nil hq
  rw [Path.beside, h]

theorem write_of_dots (h : Site t x.path loc) (habs : p.isAbsolute = false)
    (ht : Path.trim (Path.pieces p) = []) (text : Text) : (x.write t p text).2 = t := by
  obtain ⟨n, hn⟩ := h.named
  obtain ⟨q, hq, hne, hdir⟩ := exists_parent?_isDir h
  have hbeside : (x.path.join p).beside = q :=
    beside_eq ((Path.parent?_join_of_dots hn habs ht).trans hq) hne
  rw [write_eq, hbeside, makeDirs_of_isDir hdir]
  simp only
  cases hw : t.write (x.path.join p) (Utf8.encode text) with
  | error e => rfl
  | ok u =>
    obtain ⟨-, spot, hr, hspot⟩ := write_eq_ok hw
    obtain ⟨-, hf⟩ := resolve_eq_ok hr
    have hdots : ∃ dots, (∀ d ∈ dots, d = Path.dot) ∧ steps (x.path.join p) = x.path.names ++ dots := by
      refine ⟨p.names ++ if (x.path.join p).endsWithSlash then [Path.dot] else [], fun d hd => ?_, ?_⟩
      · rcases List.mem_append.mp hd with hd | hd
        · exact Path.names_of_dots ht d hd
        · split at hd
          · exact List.mem_singleton.mp hd
          · cases hd
      · rw [steps, Path.names_join _ habs, List.append_assoc]
    obtain ⟨dots, hdots, hsteps⟩ := hdots
    obtain ⟨places, hl⟩ := h.leads
    have hlead := (hl maxLinks).append fun m => leads_dots (t := t) m loc hdots
    rw [hsteps, h.origin_join, hlead.follow_false] at hf
    obtain rfl := Except.ok.inj hf
    exact absurd rfl hspot.1

end Stage

/-- Files are written alike into two stages that have the same in them. -/
theorem FileTree.Twins.stageWrite {t t' : FileTree} {x x' : Stage} {p : Path} {loc loc' : Loc}
    (h : Twins x.path x'.path loc loc' t t') (habs : p.isAbsolute = false)
    (hstays : Path.stays 0 p.names = true) (text : Text) :
    Grown x.path x'.path loc loc' t t' (x.write t p text).2 (x'.write t' p text).2 := by
  by_cases ht : Path.trim (Path.pieces p) = []
  · rw [Stage.write_of_dots h.site habs ht, Stage.write_of_dots h.site' habs ht]
    exact h.refl_grown
  have hp : p ≠ [] := fun hp => ht (hp ▸ rfl)
  have hmade : Alike x.path x'.path loc loc' t t' (t.makeDirs (x.path.join p).beside)
      (t'.makeDirs (x'.path.join p).beside) := by
    have hq := h.site.parent? habs ht
    have hq' := h.site'.parent? habs ht
    by_cases ha : Path.above p = []
    · rw [if_pos ha] at hq hq'
      rw [Stage.beside_eq hq h.site.ne_nil, Stage.beside_eq hq' h.site'.ne_nil,
        makeDirs_of_isDir h.site.isDir, makeDirs_of_isDir h.site'.isDir]
      exact ⟨rfl, h.refl_grown⟩
    · rw [if_neg ha] at hq hq'
      rw [Stage.beside_eq hq (h.site.join_ne_nil _), Stage.beside_eq hq' (h.site'.join_ne_nil _)]
      obtain ⟨rest, hrest⟩ := Path.names_above ha
      exact h.makeDirs (Path.isAbsolute_above habs ha) (Path.stays_append (hrest ▸ hstays))
        (by rwa [Path.trim_pieces_above ha])
  rw [Stage.write_eq, Stage.write_eq]
  cases hr : t.makeDirs (x.path.join p).beside with
  | mk r u =>
    cases hr' : t'.makeDirs (x'.path.join p).beside with
    | mk r' u' =>
      rw [hr, hr'] at hmade
      obtain rfl : r = r' := hmade.answer
      cases r with
      | error e => exact hmade.grown
      | ok _ =>
        simp only
        rcases hmade.grown.twins.write hp habs hstays (Utf8.encode text) with
          ⟨e, hw, hw'⟩ | ⟨v, v', hw, hw', hgrown⟩
        · rw [hw, hw']
          exact hmade.grown
        · rw [hw, hw']
          exact hmade.grown.trans hgrown

end EnvTemplate
