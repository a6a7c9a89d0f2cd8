import EnvTemplate.Proofs.FileTree.Linkless

/-! Directories that have the same in them.  A relative path that never leads above where it starts stays
in the directory that it is joined to, so what is made for it depends on nothing else, and it comes to the
same in both directories. -/
namespace EnvTemplate

namespace Path

/-- Names that never lead above the directory that they start so many steps below. -/
def stays (depth : Nat) : List Bytes → Bool
  | [] => true
  | n :: ns =>
    if n = dot then stays depth ns
    else if n = dotDot then decide (0 < depth) && stays (depth - 1) ns
    else stays (depth + 1) ns

theorem stays_append {a b : List Bytes} {depth : Nat} (h : stays depth (a ++ b) = true) :
    stays depth a = true := by
  induction a generalizing depth with
  | nil => rfl
  | cons n a ih =>
    rw [List.cons_append, stays] at h
    rw [stays]
    split
    · next hd =>
      rw [if_pos hd] at h
      exact ih h
    next hd =>
    rw [if_neg hd] at h
    split
    · next hdd =>
      rw [if_pos hdd, Bool.and_eq_true] at h
      rw [Bool.and_eq_true]
      exact ⟨h.1, ih h.2⟩
    next hdd =>
    rw [if_neg hdd] at h
    exact ih h

theorem stays_concat_dot (ns : List Bytes) (depth : Nat) : stays depth (ns ++ [dot]) = stays depth ns := by
  induction ns generalizing depth with
  | nil => simp [stays]
  | cons n ns ih => simp only [List.cons_append, stays, ih]

end Path

namespace FileTree

variable {t t' u u' : FileTree} {base base' p : Path} {loc loc' s : Loc} {ns : List Bytes}

/-! ### A directory and its path -/

/-- A directory in a tree without links, and a path that leads straight to it. -/
structure Site (t : FileTree) (base : Path) (loc : Loc) : Prop where
  wellFormed : t.WellFormed
  noLinks : t.NoLinks
  dir : t.get? loc = some .dir
  named : ∃ n, Path.IsNamed base n
  check : checkPath base = .ok ()
  noUp : ∀ n ∈ base.names, n ≠ Path.dotDot
  straight : straight base.names = loc

structure Within (loc : Loc) (t u : FileTree) : Prop where
  cwd : u.cwd = t.cwd
  outside {q : Loc} (h : ¬loc <+: q) : u.get? q = t.get? q

theorem Within.refl (loc : Loc) (t : FileTree) : Within loc t t := ⟨rfl, fun _ => rfl⟩

theorem Within.trans {v : FileTree} (h : Within loc t u) (h' : Within loc u v) : Within loc t v :=
  ⟨h'.cwd.trans h.cwd, fun hq => (h'.outside hq).trans (h.outside hq)⟩

namespace Site

theorem leads (h : Site t base loc) : ∃ places, ∀ n, Leads t n [] base.names loc places := by
  have hd : t.get? ([] ++ FileTree.straight base.names) = some .dir := by
    rw [List.nil_append, h.straight]
    exact h.dir
  obtain ⟨places, -, hl⟩ := exists_leads_straight h.wellFormed h.noUp hd
  rw [List.nil_append, h.straight] at hl
  exact ⟨places, hl⟩

theorem isAbsolute (h : Site t base loc) : base.isAbsolute = true := by
  obtain ⟨n, hn⟩ := h.named
  exact hn.isAbsolute

theorem join (h : Site t base loc) (hp : p.isAbsolute = false) : base.join p = base ++ Path.slash :: p := by
  obtain ⟨n, hn⟩ := h.named
  exact hn.join hp

theorem origin_join (h : Site t base loc) (p : Path) : origin t.cwd (base.join p) = [] := by
  simp [origin, Path.isAbsolute_join, h.isAbsolute]

theorem isDir (h : Site t base loc) : t.isDir base = true := by
  obtain ⟨places, hl⟩ := h.leads
  have horigin : origin t.cwd base = [] := by simp [origin, h.isAbsolute]
  exact isDir_iff.mpr ⟨loc, status_of_leads h.check (horigin ▸ hl maxLinks)⟩

theorem follow (h : Site t base loc) (hns : ns ≠ []) :
    ∃ m, t.follow false maxLinks [] (base.names ++ ns) = t.follow false m loc ns := by
  obtain ⟨places, hl⟩ := h.leads
  exact (hl maxLinks).follow_append false hns

theorem put (h : Site t base loc) {n : Bytes} {e : Entry} (hd : t.get? (loc ++ s) = some .dir)
    (hn : IsName n) (he : e = .dir ∨ t.get? (loc ++ s ++ [n]) ≠ some .dir)
    (hlink : ∀ target, e ≠ .link target) :
    Site (t.put (loc ++ s ++ [n]) e) base loc ∧ Within loc t (t.put (loc ++ s ++ [n]) e) := by
  have hne : loc ++ s ++ [n] ≠ [] := by simp
  refine ⟨⟨h.wellFormed.put hd hn he, h.noLinks.put hne hlink, ?_, h.named, h.check, h.noUp,
    h.straight⟩, rfl, fun {q} hq => ?_⟩
  · rw [get?_put hne, if_neg, h.dir]
    simp [List.append_assoc]
  · rw [get?_put hne, if_neg]
    rintro rfl
    exact hq (by simp [List.append_assoc])

end Site

/-! ### The same below two places -/

def Spot.below (loc : Loc) : Spot → Spot
  | .present s e => .present (loc ++ s) e
  | .absent s n => .absent (loc ++ s) n

def Place.below (loc : Loc) (place : Place) : Place := { place with dir := loc ++ place.dir }

/-- Two directories that have the same in them. -/
structure Twins (base base' : Path) (loc loc' : Loc) (t t' : FileTree) : Prop where
  site : Site t base loc
  site' : Site t' base' loc'
  length : base.length = base'.length
  get? (s : Loc) : t.get? (loc ++ s) = t'.get? (loc' ++ s)

/-- Two trees that twins have come to by changes in the two directories. -/
structure Grown (base base' : Path) (loc loc' : Loc) (t t' u u' : FileTree) : Prop where
  twins : Twins base base' loc loc' u u'
  within : Within loc t u
  within' : Within loc' t' u'

/-- What stands where names lead to: something, or nothing under the last of them. -/
def Spot.Stands (t : FileTree) (ns : List Bytes) : Spot → Prop
  | .present loc e => t.get? loc = some e
  | .absent dir name => t.get? dir = some .dir ∧ t.get? (dir ++ [name]) = none ∧ IsProper name ∧
      name.length ≤ maxName ∧ name ∈ ns

theorem Spot.Stands.cons {spot : Spot} (h : spot.Stands t ns) (name : Bytes) :
    spot.Stands t (name :: ns) := by
  cases spot with
  | present => exact h
  | absent =>
    obtain ⟨hdir, hnone, hp, hlen, hm⟩ := h
    exact ⟨hdir, hnone, hp, hlen, List.mem_cons_of_mem name hm⟩

theorem WellFormed.get?_dropLast (hw : t.WellFormed) {dir : Loc} (hd : t.get? dir = some .dir) :
    t.get? dir.dropLast = some .dir := by
  rcases List.eq_nil_or_concat dir with rfl | ⟨a, x, rfl⟩
  · rfl
  · rw [List.concat_eq_append] at hd ⊢
    rw [List.dropLast_concat]
    exact hw.parent (by rw [hd]; simp)

theorem follow_stands (hw : t.WellFormed) (hl : t.NoLinks) {dir : Loc} (hd : t.get? dir = some .dir)
    {n : Nat} {spot : Spot} (h : t.follow false n dir ns = .ok spot) : spot.Stands t ns := by
  induction ns generalizing dir with
  | nil =>
    rw [follow_nil] at h
    cases h
    exact hd
  | cons name ns ih =>
    cases firstStep h with
    | dot _ h => exact (ih hd h).cons name
    | dotDot _ h => exact (ih (hw.get?_dropLast hd) h).cons name
    | down _ _ he h => exact (ih he h).cons name
    | link _ target _ _ he => exact absurd he (hl _ target)
    | last hp hlen _ _ hs =>
      cases he : t.get? (dir ++ [name]) with
      | none =>
        rw [he] at hs
        subst hs
        exact ⟨hd, he, hp, hlen, List.mem_cons_self⟩
      | some e =>
        rw [he] at hs
        subst hs
        exact he

theorem resolve_eq_ok {spot : Spot} (h : t.resolve false p = .ok spot) :
    checkPath p = .ok () ∧ t.follow false maxLinks (origin t.cwd p) (steps p) = .ok spot := by
  unfold resolve at h
  cases hc : checkPath p with
  | error e => simp [hc, bind, Except.bind] at h
  | ok _ => exact ⟨rfl, by simpa [hc, bind, Except.bind] using h⟩

/-- Where a path leads is something, or nothing under a name that something can get. -/
theorem stands_of_resolve (hw : t.WellFormed) (hl : t.NoLinks) {spot : Spot}
    (h : t.resolve false p = .ok spot) :
    match spot with
    | .present loc e => t.get? loc = some e
    | .absent dir n => t.get? dir = some .dir ∧ t.get? (dir ++ [n]) = none ∧ IsName n := by
  obtain ⟨hc, hf⟩ := resolve_eq_ok h
  have hstands := follow_stands hw hl (hw.get?_origin p) hf
  cases spot with
  | present loc e => exact hstands
  | absent dir n =>
    obtain ⟨hdir, hnone, hp, hlen, hm⟩ := hstands
    have hmem : n ∈ p.names := by
      unfold steps at hm
      split at hm
      · exact (List.mem_append.mp hm).resolve_right (by simpa using hp.1)
      · simpa using hm
    have hnul : 0 ∉ n := fun h0 => (checkPath_eq_ok_iff.mp hc).1 (Path.mem_of_mem_names hmem h0)
    exact ⟨hdir, hnone, Path.mem_names hmem, hp, hnul, hlen⟩

namespace Twins

theorem follow (h : Twins base base' loc loc' t t') (hns : Path.stays s.length ns = true) (m m' : Nat) :
    ∃ r : Except OsError Spot, t.follow false m (loc ++ s) ns = r.map (Spot.below loc) ∧
      t'.follow false m' (loc' ++ s) ns = r.map (Spot.below loc') := by
  induction ns generalizing s with
  | nil => exact ⟨.ok (.present s .dir), follow_nil .., follow_nil ..⟩
  | cons n ns ih =>
    by_cases hd : n = Path.dot
    · rw [Path.stays, if_pos hd] at hns
      simp only [hd, follow_dot]
      exact ih hns
    by_cases hdd : n = Path.dotDot
    · rw [Path.stays, if_neg hd, if_pos hdd] at hns
      rcases List.eq_nil_or_concat s with rfl | ⟨a, x, rfl⟩
      · simp at hns
      · simp only [hdd, follow_dotDot, List.concat_eq_append, ← List.append_assoc, List.dropLast_concat]
        exact ih (by simpa using hns)
    · rw [Path.stays, if_neg hd, if_neg hdd] at hns
      have hget := h.get? (s ++ [n])
      simp only [← List.append_assoc] at hget
      have hp : IsProper n := ⟨hd, hdd⟩
      rw [follow_proper hp (h.site.noLinks _), follow_proper hp (h.site'.noLinks _), ← hget]
      split
      · exact ⟨.error .nameTooLong, rfl, rfl⟩
      cases t.get? (loc ++ s ++ [n]) with
      | none =>
        cases ns with
        | nil => exact ⟨.ok (.absent s n), rfl, rfl⟩
        | cons => exact ⟨.error .notFound, rfl, rfl⟩
      | some e =>
        cases e with
        | dir =>
          simp only [List.append_assoc]
          exact ih (by simpa using hns)
        | file content =>
          cases ns with
          | nil => exact ⟨.ok (.present (s ++ [n]) (.file content)), by simp [Spot.below, Except.map],
              by simp [Spot.below, Except.map]⟩
          | cons => exact ⟨.error .notDirectory, rfl, rfl⟩
        | link target =>
          cases ns with
          | nil => exact ⟨.ok (.present (s ++ [n]) (.link target)), by simp [Spot.below, Except.map],
              by simp [Spot.below, Except.map]⟩
          | cons => exact ⟨.error .notDirectory, rfl, rfl⟩

theorem refl_grown (h : Twins base base' loc loc' t t') : Grown base base' loc loc' t t' t t' :=
  ⟨h, .refl loc t, .refl loc' t'⟩

theorem put (h : Twins base base' loc loc' t t') {n : Bytes} {e : Entry}
    (hd : t.get? (loc ++ s) = some .dir) (hn : IsName n)
    (he : e = .dir ∨ t.get? (loc ++ s ++ [n]) ≠ some .dir) (hlink : ∀ target, e ≠ .link target) :
    Grown base base' loc loc' t t' (t.put (loc ++ s ++ [n]) e) (t'.put (loc' ++ s ++ [n]) e) := by
  have hget := h.get? (s ++ [n])
  simp only [← List.append_assoc] at hget
  obtain ⟨hs, hwithin⟩ := h.site.put hd hn he hlink
  obtain ⟨hs', hwithin'⟩ := h.site'.put (h.get? s ▸ hd) hn (hget ▸ he) hlink
  refine ⟨⟨hs, hs', h.length, fun r => ?_⟩, hwithin, hwithin'⟩
  rw [get?_put (by simp), get?_put (by simp), h.get? r, List.append_assoc, List.append_assoc]
  simp only [List.append_cancel_left_eq]

theorem replace (h : Twins base base' loc loc' t t') {old : Bytes}
    (he : t.get? (loc ++ s) = some (.file old)) (content : Bytes) :
    Grown base base' loc loc' t t' (t.put (loc ++ s) (.file content))
      (t'.put (loc' ++ s) (.file content)) := by
  rcases List.eq_nil_or_concat s with rfl | ⟨a, n, rfl⟩
  · rw [List.append_nil, h.site.dir] at he
    cases he
  · rw [List.concat_eq_append, ← List.append_assoc] at he
    have hne : t.get? (loc ++ a ++ [n]) ≠ none := by rw [he]; simp
    rw [List.concat_eq_append, ← List.append_assoc, ← List.append_assoc]
    refine h.put (h.site.wellFormed.parent hne) (h.site.wellFormed.isName hne) (.inr ?_) (by simp)
    rw [he]
    simp

/-! ### Paths into twins -/

theorem checkPath_join (h : Twins base base' loc loc' t t') (hp : p.isAbsolute = false) :
    checkPath (base.join p) = checkPath (base'.join p) := by
  have hnul := (checkPath_eq_ok_iff.mp h.site.check).1
  have hnul' := (checkPath_eq_ok_iff.mp h.site'.check).1
  rw [h.site.join hp, h.site'.join hp]
  simp [checkPath, hnul, hnul', h.length]

theorem resolve (h : Twins base base' loc loc' t t') (hp : p ≠ []) (habs : p.isAbsolute = false)
    (hstays : Path.stays 0 p.names = true) :
    ∃ r : Except OsError Spot, t.resolve false (base.join p) = r.map (Spot.below loc) ∧
      t'.resolve false (base'.join p) = r.map (Spot.below loc') := by
  have hnames : steps p ≠ [] := by simp [steps, Path.names_ne_nil hp habs]
  have hsteps : ∀ b : Path, steps (b.join p) = b.names ++ steps p := fun b => by
    rw [steps, steps, Path.names_join b habs, Path.endsWithSlash_join b hp, List.append_assoc]
  have hst : Path.stays ([] : Loc).length (steps p) = true := by
    unfold steps
    split
    · exact (Path.stays_concat_dot ..).trans hstays
    · simpa using hstays
  obtain ⟨m, hm⟩ := h.site.follow hnames
  obtain ⟨m', hm'⟩ := h.site'.follow hnames
  obtain ⟨r, hr, hr'⟩ := h.follow hst m m'
  rw [List.append_nil] at hr hr'
  simp only [FileTree.resolve, h.site.origin_join, h.site'.origin_join, hsteps, hm, hm', hr, hr',
    h.checkPath_join habs]
  cases checkPath (base'.join p) with
  | error e => exact ⟨.error e, rfl, rfl⟩
  | ok _ => exact ⟨r, rfl, rfl⟩

theorem place (h : Twins base base' loc loc' t t') (hp : p ≠ []) (habs : p.isAbsolute = false)
    (hstays : Path.stays 0 p.names = true) :
    ∃ r : Except OsError Place, t.place (base.join p) = r.map (Place.below loc) ∧
      t'.place (base'.join p) = r.map (Place.below loc') := by
  obtain ⟨ns, n, hn⟩ := (List.eq_nil_or_concat p.names).resolve_left (Path.names_ne_nil hp habs)
  rw [List.concat_eq_append] at hn
  have hlast : ∀ b : Path, (b.join p).names.getLast? = some n := fun b => by
    rw [Path.names_join b habs, hn, ← List.append_assoc, List.getLast?_concat]
  have hnames : ∀ b : Path, (b.join p).names.dropLast ++ [Path.dot] = b.names ++ (ns ++ [Path.dot]) :=
    fun b => by
      rw [Path.names_join b habs, hn, ← List.append_assoc, List.dropLast_concat, List.append_assoc]
  have hst : Path.stays ([] : Loc).length (ns ++ [Path.dot]) = true :=
    (Path.stays_concat_dot ..).trans (Path.stays_append (hn ▸ hstays))
  have hne : ns ++ [Path.dot] ≠ [] := by simp
  obtain ⟨m, hm⟩ := h.site.follow hne
  obtain ⟨m', hm'⟩ := h.site'.follow hne
  obtain ⟨r, hr, hr'⟩ := h.follow hst m m'
  rw [List.append_nil] at hr hr'
  simp only [FileTree.place, h.site.origin_join, h.site'.origin_join, hlast, hnames,
    h.checkPath_join habs, hm, hm', hr, hr', Path.endsWithSlash_join _ hp]
  cases checkPath (base'.join p) with
  | error e => exact ⟨.error e, rfl, rfl⟩
  | ok _ =>
    cases r with
    | error e => exact ⟨.error e, rfl, rfl⟩
    | ok spot =>
      cases spot with
      | present s e => exact ⟨.ok ⟨s, _, p.endsWithSlash⟩, rfl, rfl⟩
      | absent s n => exact ⟨.error .notFound, rfl, rfl⟩

theorem isDir (h : Twins base base' loc loc' t t') (hp : p ≠ []) (habs : p.isAbsolute = false)
    (hstays : Path.stays 0 p.names = true) : t.isDir (base.join p) = t'.isDir (base'.join p) := by
  obtain ⟨r, hr, hr'⟩ := h.resolve hp habs hstays
  unfold FileTree.isDir status
  rw [hr, hr']
  cases r with
  | error e => rfl
  | ok spot =>
    cases spot with
    | present s e => cases e <;> rfl
    | absent s n => rfl

/-! ### Making something in twins -/

/-- What comes of the same operation in both directories: the same error, or the same change. -/
theorem create (h : Twins base base' loc loc' t t') (hp : p ≠ []) (habs : p.isAbsolute = false)
    (hstays : Path.stays 0 p.names = true) {e : Entry} (hlink : ∀ target, e ≠ .link target) :
    (∃ error, t.create (base.join p) e = .error error ∧ t'.create (base'.join p) e = .error error) ∨
      ∃ u u', t.create (base.join p) e = .ok u ∧ t'.create (base'.join p) e = .ok u' ∧
        Grown base base' loc loc' t t' u u' := by
  obtain ⟨r, hr, hr'⟩ := h.place hp habs hstays
  unfold FileTree.create
  rw [hr, hr']
  cases r with
  | error error => exact .inl ⟨error, rfl, rfl⟩
  | ok place =>
    obtain ⟨s, last, slash⟩ := place
    simp only [Except.map, Place.below, bind, Except.bind] at hr ⊢
    cases last with
    | dot => exact .inl ⟨_, rfl, rfl⟩
    | dotDot => exact .inl ⟨_, rfl, rfl⟩
    | root => exact .inl ⟨_, rfl, rfl⟩
    | name n =>
      have hget := h.get? (s ++ [n])
      simp only [← List.append_assoc] at hget
      simp only [← hget]
      split
      · exact .inl ⟨_, rfl, rfl⟩
      next hlen =>
      split
      · exact .inl ⟨_, rfl, rfl⟩
      next hnone =>
      have hnone : t.get? (loc ++ s ++ [n]) = none := by simpa using hnone
      obtain ⟨-, places, hg⟩ := exists_goes_of_place hr
      refine .inr ⟨_, _, rfl, rfl, h.put (hg.get?_dir h.site.wellFormed) (hg.isName (Nat.not_lt.mp hlen)) ?_
        hlink⟩
      exact .inr (by rw [hnone]; simp)

end Twins
end FileTree
end EnvTemplate
