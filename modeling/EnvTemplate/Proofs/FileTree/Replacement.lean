import EnvTemplate.Proofs.FileTree.Way

/-! How something takes another thing's place: what stands there is removed, and then renamed to.  What
a path names can be cut out of a tree with all that is in it, and a removal that succeeds does just
that.  A removal never adds anything, but where it fails it may have emptied a directory. -/
namespace EnvTemplate
namespace FileTree

theorem isInside_iff {dir loc : Loc} : isInside dir loc = true ↔ dir <+: loc ∧ dir ≠ loc := by
  simp [isInside]

/-- A place belongs to what stands at another one: it is that place, or it is in the directory there. -/
def Covers (t : FileTree) (loc q : Loc) : Prop :=
  q = loc ∨ t.get? loc = some .dir ∧ isInside loc q = true

instance (t : FileTree) (loc q : Loc) : Decidable (t.Covers loc q) :=
  inferInstanceAs (Decidable (_ ∨ _))

theorem Covers.isPrefix {t : FileTree} {loc q : Loc} (h : t.Covers loc q) : loc <+: q := by
  rcases h with rfl | ⟨-, h⟩
  · exact List.prefix_refl q
  · exact (isInside_iff.1 h).1

def cut (t : FileTree) (loc : Loc) : FileTree :=
  (if t.get? loc = some .dir then t.clearInside loc else t).clear loc

theorem get?_cut {loc : Loc} (h : loc ≠ []) (t : FileTree) (q : Loc) :
    (t.cut loc).get? q = if t.Covers loc q then none else t.get? q := by
  unfold cut Covers
  rw [get?_clear h]
  by_cases hq : q = loc
  · simp [hq]
  by_cases hd : t.get? loc = some .dir
  · simp [hq, hd, get?_clearInside]
  · simp [hq, hd]

/-! ### Pruned trees -/

/-- One tree has at each place what another one has, or nothing. -/
structure IsPruned (t u : FileTree) : Prop where
  cwd : u.cwd = t.cwd
  get? : ∀ q, u.get? q = none ∨ u.get? q = t.get? q

theorem IsPruned.refl (t : FileTree) : IsPruned t t := ⟨rfl, fun _ => .inr rfl⟩

theorem IsPruned.trans {t u v : FileTree} (h : IsPruned t u) (h' : IsPruned u v) : IsPruned t v := by
  refine ⟨h'.cwd.trans h.cwd, fun q => ?_⟩
  rcases h'.get? q with hv | hv
  · exact .inl hv
  · rw [hv]
    exact h.get? q

theorem isPruned_clear {loc : Loc} (h : loc ≠ []) (t : FileTree) : IsPruned t (t.clear loc) := by
  refine ⟨rfl, fun q => ?_⟩
  rw [get?_clear h]
  split
  · exact .inl rfl
  · exact .inr rfl

theorem isPruned_clearInside (t : FileTree) (loc : Loc) : IsPruned t (t.clearInside loc) := by
  refine ⟨rfl, fun q => ?_⟩
  rw [get?_clearInside]
  split
  · exact .inl rfl
  · exact .inr rfl

theorem isPruned_cut {loc : Loc} (h : loc ≠ []) (t : FileTree) : IsPruned t (t.cut loc) := by
  unfold cut
  split
  · exact (isPruned_clearInside t loc).trans (isPruned_clear h _)
  · exact isPruned_clear h t

theorem IsPruned.get?_of_ne_none {t u : FileTree} (h : IsPruned t u) {q : Loc}
    (hq : u.get? q ≠ none) : u.get? q = t.get? q :=
  (h.get? q).resolve_left hq

theorem IsPruned.goes {t u : FileTree} (h : IsPruned t u) {p : Path} {w : Way} (hg : u.Goes p w) :
    t.Goes p w :=
  hg.congr h.cwd.symm fun q hq => (h.get?_of_ne_none (hg.get?_ne_none q hq)).symm

/-! ### Removing directories -/

theorem children_clearInside (t : FileTree) (dir : Loc) : (t.clearInside dir).children dir = [] := by
  apply List.eq_nil_iff_forall_not_mem.2
  rintro ⟨name, e⟩ hmem
  obtain ⟨⟨path, e'⟩, hu, hp⟩ := List.mem_filterMap.1 hmem
  obtain rfl : path = [name] := by
    split at hp
    · next h => simp_all
    · cases hp
  have hin : isInside dir (dir ++ [name]) = true := isInside_iff.2 (by simp)
  have hg := get?_clearInside t dir (dir ++ [name])
  rw [hin, if_pos rfl] at hg
  simp [get?, mem_under.1 hu] at hg

theorem removeEmptyDir_eq_ok_iff {t u : FileTree} {p : Path} :
    t.removeEmptyDir p = .ok u ↔ ∃ w, t.Goes p w ∧ t.get? w.loc = some .dir ∧
      t.children w.loc = [] ∧ u = t.clear w.loc := by
  constructor
  · intro h
    unfold removeEmptyDir at h
    cases hp : t.place p with
    | error e => simp [hp, bind, Except.bind] at h
    | ok place =>
      obtain ⟨dir, last, slash⟩ := place
      simp only [hp, bind, Except.bind] at h
      cases last with
      | dot => simp at h
      | dotDot => simp at h
      | root => simp at h
      | name n =>
        obtain ⟨-, places, hg⟩ := exists_goes_of_place hp
        cases hd : t.get? (dir ++ [n]) with
        | none => simp [hd] at h
        | some e =>
          cases e with
          | file content => simp [hd] at h
          | link target => simp [hd] at h
          | dir =>
            simp only [hd, List.isEmpty_iff] at h
            split at h
            · next hc => exact ⟨_, hg, hd, hc, (Except.ok.inj h).symm⟩
            · cases h
  · rintro ⟨w, hg, hd, hc, rfl⟩
    unfold Way.loc at hd hc
    simp [removeEmptyDir, hg.place, hd, hc, bind, Except.bind, Way.loc]

theorem remove_of_dir {t : FileTree} {p : Path} {loc : Loc}
    (h : t.status true p = .ok (loc, .dir)) :
    t.remove p =
      match (t.clearInside loc).removeEmptyDir p with
      | .ok u => (.ok (), u)
      | .error .notFound => (.ok (), t.clearInside loc)
      | .error e => (.error e, t.clearInside loc) := by
  have hs := status_false_of_dir h
  cases hr : (t.clearInside loc).removeEmptyDir p with
  | ok u => simp only [remove, h, removeTree, hs, hr]
  | error e => cases e <;> simp only [remove, h, removeTree, hs, hr]

theorem isPruned_remove_of_dir {t : FileTree} {p : Path} {loc : Loc}
    (h : t.status true p = .ok (loc, .dir)) : IsPruned (t.clearInside loc) (t.remove p).2 := by
  rw [remove_of_dir h]
  split
  · next u hu =>
    obtain ⟨w, -, -, -, rfl⟩ := removeEmptyDir_eq_ok_iff.1 hu
    exact isPruned_clear w.loc_ne_nil _
  · exact .refl _
  · exact .refl _

theorem get?_remove_of_isInside {t : FileTree} {p : Path} {loc q : Loc}
    (h : t.status true p = .ok (loc, .dir)) (hq : isInside loc q = true) :
    (t.remove p).2.get? q = none := by
  rcases (isPruned_remove_of_dir h).get? q with hn | hn
  · exact hn
  · rw [hn, get?_clearInside, hq, if_pos rfl]

theorem remove_dir {t : FileTree} {p : Path} {w : Way} (h : t.status true p = .ok (w.loc, .dir))
    (hd : t.get? w.loc = some .dir) (hg : (t.clearInside w.loc).Goes p w) :
    t.remove p = (.ok (), t.cut w.loc) := by
  have hd' : (t.clearInside w.loc).get? w.loc = some .dir := by
    rw [get?_clearInside, if_neg (by simp [isInside])]
    exact hd
  have he : (t.clearInside w.loc).removeEmptyDir p = .ok ((t.clearInside w.loc).clear w.loc) :=
    removeEmptyDir_eq_ok_iff.2 ⟨w, hg, hd', children_clearInside t w.loc, rfl⟩
  rw [remove_of_dir h, he, cut, if_pos hd]

/-! ### Removing anything -/

theorem remove_of_ne_dir {t : FileTree} {p : Path} {loc : Loc} {e : Entry}
    (h : t.status true p = .ok (loc, e)) (he : e ≠ .dir) : t.remove p = (.ok (), t.cut loc) := by
  obtain ⟨hb, w, hg, rfl⟩ := exists_goes_of_status h he
  have hs : p.endsWithSlash = true → ∀ target, t.get? w.loc ≠ some (.link target) := by simp [hb]
  obtain ⟨-, -, hget, -⟩ := (hg.status_eq_ok_iff hs).1 h
  have hget' : t.get? (w.dir ++ [w.name]) = some e := hget
  have hf : t.removeFile p = .ok (t.clear w.loc) := by
    cases e with
    | dir => exact absurd rfl he
    | file content => simp [removeFile, hg.place, hget', hb, bind, Except.bind, Way.loc]
    | link target => simp [removeFile, hg.place, hget', hb, bind, Except.bind, Way.loc]
  have hc : t.cut w.loc = t.clear w.loc := by simp [cut, hget, he]
  rw [hc]
  cases e with
  | dir => exact absurd rfl he
  | file content => simp only [remove, h, hf]
  | link target => simp only [remove, h, hf]

/-- A removal takes away what it finds, and never adds or changes anything. -/
theorem isPruned_remove (t : FileTree) (p : Path) : IsPruned t (t.remove p).2 := by
  cases h : t.status true p with
  | error e =>
    simp only [remove, h]
    exact .refl t
  | ok s =>
    obtain ⟨loc, e⟩ := s
    by_cases he : e = .dir
    · subst he
      exact (isPruned_clearInside t loc).trans (isPruned_remove_of_dir h)
    · obtain ⟨-, w, -, rfl⟩ := exists_goes_of_status h he
      rw [remove_of_ne_dir h he]
      exact isPruned_cut w.loc_ne_nil t

theorem get?_remove_of_not_isPrefix {t : FileTree} {p : Path} {loc q : Loc} {e : Entry}
    (h : t.status true p = .ok (loc, e)) (hq : ¬loc <+: q) : (t.remove p).2.get? q = t.get? q := by
  by_cases he : e = .dir
  · subst he
    have hkeep : (t.clearInside loc).get? q = t.get? q := by
      rw [get?_clearInside, if_neg fun hin => hq (isInside_iff.1 hin).1]
    rw [remove_of_dir h]
    split
    · next u hu =>
      obtain ⟨w, hg, hd, -, rfl⟩ := removeEmptyDir_eq_ok_iff.1 hu
      have hpruned := isPruned_clearInside t loc
      have hdt : t.get? w.loc = some .dir := (hpruned.get?_of_ne_none (by simp [hd])).symm.trans hd
      obtain ⟨rfl, -⟩ := ((hpruned.goes hg).status_eq_ok_iff (by simp [hdt])).1 h
      rw [get?_clear w.loc_ne_nil, if_neg, hkeep]
      rintro rfl
      exact hq (List.prefix_refl _)
    · exact hkeep
    · exact hkeep
  · obtain ⟨-, w, -, rfl⟩ := exists_goes_of_status h he
    rw [remove_of_ne_dir h he, get?_cut w.loc_ne_nil, if_neg fun hcov => hq hcov.isPrefix]

/-- Where a path names something and does not pass it, just that is removed. -/
theorem Goes.remove_eq {t : FileTree} {p : Path} {w : Way} (hg : t.Goes p w) {e : Entry}
    (h : t.status true p = .ok (w.loc, e)) (hd : t.get? w.loc = some e)
    (ha : ∀ q ∈ w.places, ¬t.Covers w.loc q) : t.remove p = (.ok (), t.cut w.loc) := by
  by_cases he : e = .dir
  · subst he
    refine remove_dir h hd (hg.congr rfl fun q hq => ?_)
    rw [get?_clearInside, if_neg fun hin => ha q hq (.inr ⟨hd, hin⟩)]
  · exact remove_of_ne_dir h he

/-- Where a path still goes its way after a removal, just what it named was removed. -/
theorem remove_eq_of_goes {t : FileTree} {p : Path} {w : Way} {e : Entry}
    (h : t.status true p = .ok (w.loc, e)) (hd : t.get? w.loc = some e)
    (hg : (t.remove p).2.Goes p w) : t.remove p = (.ok (), t.cut w.loc) := by
  by_cases he : e = .dir
  · subst he
    exact remove_dir h hd ((isPruned_remove_of_dir h).goes hg)
  · exact remove_of_ne_dir h he

/-! ### Renaming -/

/-- A directory can be given a name that is free, if neither place is in the other one. -/
theorem rename_dir {t : FileTree} {source target : Path} {v w : Way} (hs : t.Goes source v)
    (ht : t.Goes target w) (hd : t.get? v.loc = some .dir) (hn : t.get? w.loc = none)
    (hl : w.name.length ≤ maxName) (hvw : ¬v.loc <+: w.loc) (hwv : ¬w.loc <+: v.loc) :
    t.rename source target = .ok (t.move v.loc w.loc) := by
  have hvw' : isInside v.loc w.loc = false := by
    simpa [isInside] using fun h => absurd h hvw
  have hwv' : isInside w.loc v.loc = false := by
    simpa [isInside] using fun h => absurd h hwv
  have hne : v.loc ≠ w.loc := fun h => hvw (h ▸ List.prefix_refl _)
  unfold Way.loc at hd hn hvw' hwv' hne
  simp only [rename, hs.place, ht.place, bind, Except.bind, hd, hn, hvw', hwv', Way.loc,
    Nat.not_lt.mpr hl, hne, if_false, Bool.false_eq_true]

theorem exists_goes_of_rename {t u : FileTree} {source target : Path}
    (h : t.rename source target = .ok u) :
    ∃ v w e, t.Goes source v ∧ t.Goes target w ∧ t.get? v.loc = some e ∧
      (e = .dir → isInside v.loc w.loc = false ∧ isInside w.loc v.loc = false) := by
  unfold rename at h
  cases hs : t.place source with
  | error e => simp [hs, bind, Except.bind] at h
  | ok old =>
    obtain ⟨sdir, slast, sslash⟩ := old
    cases ht : t.place target with
    | error e => simp [hs, ht, bind, Except.bind] at h
    | ok new =>
      obtain ⟨tdir, tlast, tslash⟩ := new
      simp only [hs, ht, bind, Except.bind] at h
      split at h
      · next oldName newName =>
        obtain ⟨-, splaces, hv⟩ := exists_goes_of_place hs
        obtain ⟨-, tplaces, hw⟩ := exists_goes_of_place ht
        cases hd : t.get? (sdir ++ [oldName]) with
        | none => simp [hd] at h
        | some e =>
          refine ⟨_, _, e, hv, hw, hd, ?_⟩
          rintro rfl
          simp only [hd] at h
          split at h
          · cases h
          split at h
          · cases h
          split at h
          · cases h
          next hvw hwv => exact ⟨Bool.eq_false_iff.2 hvw, Bool.eq_false_iff.2 hwv⟩
      · cases h

end FileTree
end EnvTemplate
