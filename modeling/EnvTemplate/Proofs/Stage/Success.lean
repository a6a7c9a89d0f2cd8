import EnvTemplate.Proofs.Stage.Prepare
import EnvTemplate.Proofs.Stage.Publish
import EnvTemplate.Proofs.Stage.Single

/-! What a publication that succeeds comes to: what was staged stands at the target, and nothing else is
changed. -/
namespace EnvTemplate

namespace FileTree

variable {t u : FileTree}

/-- What is at one place and inside it has taken the place of what was at another. -/
structure Moved (source target : Loc) (t u : FileTree) : Prop where
  cwd : u.cwd = t.cwd
  moved (s : Loc) : u.get? (target ++ s) = t.get? (source ++ s)
  other {q : Loc} (h : ¬target <+: q) : u.get? q = if source <+: q then none else t.get? q

theorem Goes.unique {p : Path} {v w : Way} (h : t.Goes p v) (h' : t.Goes p w) : v = w := by
  obtain ⟨ns, hn, hl⟩ := h.leads
  obtain ⟨ns', hn', hl'⟩ := h'.leads
  obtain ⟨rfl, hname⟩ := List.append_inj' (hn.symm.trans hn') rfl
  obtain ⟨hdir, hplaces⟩ := hl.unique hl'
  obtain ⟨vplaces, vdir, vname⟩ := v
  obtain ⟨wplaces, wdir, wname⟩ := w
  obtain rfl : vname = wname := (List.cons.inj hname).1
  obtain rfl : vdir = wdir := hdir
  obtain rfl : vplaces = wplaces := hplaces
  rfl

/-- A directory is renamed to a name that is free, or in place of an empty directory, unless it has that
name already. -/
theorem rename_of_dir {source target : Path} {v : Way} (hv : t.Goes source v)
    (he : t.get? v.loc = some .dir) (h : t.rename source target = .ok u) :
    ∃ w, t.Goes target w ∧ w.name.length ≤ maxName ∧ (v.loc ≠ w.loc →
      ¬v.loc <+: w.loc ∧ ¬w.loc <+: v.loc ∧
        (t.get? w.loc = none ∨ t.get? w.loc = some .dir) ∧ u = t.move v.loc w.loc) := by
  unfold Way.loc at he
  unfold rename at h
  cases ht : t.place target with
  | error e' => simp [hv.place, ht, bind, Except.bind] at h
  | ok new =>
    obtain ⟨dir, last, slash⟩ := new
    simp only [hv.place, ht, bind, Except.bind] at h
    cases last with
    | dot => simp at h
    | dotDot => simp at h
    | root => simp at h
    | name n =>
      obtain ⟨-, places, hw⟩ := exists_goes_of_place ht
      simp only [he] at h
      split at h
      · cases h
      next hl =>
      split at h
      · cases h
      next hvw =>
      split at h
      · cases h
      next hwv =>
      refine ⟨_, hw, Nat.not_lt.mp hl, fun hne => ?_⟩
      have hne' : ¬v.dir ++ [v.name] = dir ++ [n] := hne
      rw [if_neg hne'] at h
      refine ⟨fun hp => hvw (isInside_iff.mpr ⟨hp, hne⟩),
        fun hp => hwv (isInside_iff.mpr ⟨hp, hne.symm⟩), ?_⟩
      cases hn : t.get? (dir ++ [n]) with
      | none =>
        rw [hn] at h
        exact ⟨.inl hn, (Except.ok.inj h).symm⟩
      | some e =>
        rw [hn] at h
        cases e with
        | dir =>
          simp only at h
          split at h
          · exact ⟨.inr hn, (Except.ok.inj h).symm⟩
          · cases h
        | file content => cases h
        | link target => cases h

theorem get?_move {source target : Loc} (hs : source ≠ []) (ht : target ≠ [])
    (hn : ∀ s, t.get? (target ++ s) = none) :
    (∀ s, (t.move source target).get? (target ++ s) = t.get? (source ++ s)) ∧
      ∀ q, ¬target <+: q →
        (t.move source target).get? q = if source <+: q then none else t.get? q := by
  have hsource : ∀ s, source ++ s ≠ [] := by simp [hs]
  have htarget : ∀ s, target ++ s ≠ [] := by simp [ht]
  refine ⟨fun s => ?_, fun q hq => ?_⟩
  · rw [← getElem?_entries (htarget s), ← getElem?_entries (hsource s)]
    cases he : t.entries[source ++ s]? with
    | some e => exact getElem?_move_target he target
    | none =>
      rw [getElem?_move_other]
      · split
        · rfl
        · rw [getElem?_entries (htarget s), hn s]
      · intro path hpath
        rwa [← List.append_cancel_left hpath]
  · by_cases hq0 : q = []
    · subst hq0
      simp [hs]
    rw [← getElem?_entries hq0, ← getElem?_entries hq0, getElem?_move_other]
    · simp only [List.isPrefixOf_iff_prefix]
    · rintro path rfl
      exact absurd (List.prefix_append target path) hq

theorem Way.loc_eq_of_isPrefix {v w : Way} (hdir : v.dir = w.dir) {s : Loc}
    (h : v.loc <+: w.loc ++ s) : v.loc = w.loc := by
  have hlen : v.loc.length = w.loc.length := by simp [Way.loc, hdir]
  have hpre := List.prefix_of_prefix_length_le h (List.prefix_append w.loc s) (Nat.le_of_eq hlen)
  exact hpre.eq_of_length hlen

theorem length_of_rename {source target : Path} {v w : Way} {e : Entry} (hv : t.Goes source v)
    (hw : t.Goes target w) (he : t.get? v.loc = some e) (h : t.rename source target = .ok u) :
    w.name.length ≤ maxName := by
  by_cases hd : e = .dir
  · obtain ⟨w', hw', hl, -⟩ := rename_of_dir hv (hd ▸ he) h
    exact hw.unique hw' ▸ hl
  · obtain ⟨w', hw', hl, -⟩ := rename_of_ne_dir hv he hd h
    exact hw.unique hw' ▸ hl

theorem moved_of_rename {source target : Path} {v w : Way} {e : Entry} (hv : t.Goes source v)
    (hw : t.Goes target w) (hdir : v.dir = w.dir) (hne : v.loc ≠ w.loc) (he : t.get? v.loc = some e)
    (hinside : e ≠ .dir → ∀ s, s ≠ [] → t.get? (v.loc ++ s) = none)
    (hfree : ∀ s, t.get? (w.loc ++ s) = none) (h : t.rename source target = .ok u) :
    Moved v.loc w.loc t u := by
  by_cases hd : e = .dir
  · subst hd
    obtain ⟨w', hw', -, hmove⟩ := rename_of_dir hv he h
    obtain rfl := hw.unique hw'
    obtain ⟨-, -, -, rfl⟩ := hmove hne
    obtain ⟨hmoved, hother⟩ := get?_move v.loc_ne_nil w.loc_ne_nil hfree
    exact ⟨rfl, hmoved, fun {q} hq => hother q hq⟩
  obtain ⟨w', hw', -, -, -, rfl⟩ := rename_of_ne_dir hv he hd h
  obtain rfl := hw.unique hw'
  refine ⟨rfl, fun s => ?_, fun {q} hq => ?_⟩
  · rw [get?_put w.loc_ne_nil]
    by_cases hs : s = []
    · rw [hs, List.append_nil, List.append_nil, if_pos rfl, he]
    · have hws : w.loc ++ s ≠ v.loc := fun heq =>
        hne (Way.loc_eq_of_isPrefix hdir.symm (by simp [← heq] : w.loc <+: v.loc ++ [])).symm
      rw [if_neg (by simpa using hs), get?_clear v.loc_ne_nil, if_neg hws, hfree, hinside hd s hs]
  · have hqw : q ≠ w.loc := by
      rintro rfl
      exact hq (List.prefix_refl _)
    rw [get?_put w.loc_ne_nil, if_neg hqw, get?_clear v.loc_ne_nil]
    by_cases hqv : q = v.loc
    · simp [hqv]
    rw [if_neg hqv]
    split
    · next hp =>
      obtain ⟨s, rfl⟩ := hp
      exact hinside hd s (by simpa using hqv)
    · rfl

end FileTree

namespace Stage

open FileTree

variable {x : Stage} {u c r : FileTree} {v w : Way}

structure Replaces (x : Stage) (v w : Way) (u r : FileTree) : Prop where
  goes : r.Goes x.target w
  length : w.name.length ≤ maxName
  target (s : Loc) : r.get? (w.loc ++ s) = u.get? (v.loc ++ s)
  other {q : Loc} (h : ¬w.loc <+: q) : r.get? q = if v.loc <+: q then none else u.get? q

/-- A slash after a link asks for the directory that the link leads to, but names the link.  Such a
directory is emptied, and if the link is not in it, then the link is not removed. -/
theorem get?_remove_slash {p : Path} {target : Path} (hg : u.Goes p w)
    (hs : p.endsWithSlash = true) (hl : u.get? w.loc = some (.link target)) {s : Loc × Entry}
    (hst : u.status true p = .ok s) (hok : (u.remove p).1 = .ok ())
    (hgr : (u.remove p).2.Goes p w) {q : Loc} (hq : w.dir <+: q) (hne : q ≠ w.dir) :
    (u.remove p).2.get? q = none := by
  obtain ⟨loc, e⟩ := s
  obtain rfl : e = .dir := by
    obtain ⟨-, hf⟩ := FileTree.status_eq_ok_iff.mp hst
    simp only [steps, hs, if_true] at hf
    exact (leads_of_follow_dot hf).1
  rw [remove_of_dir hst] at hok hgr ⊢
  cases hr : (u.clearInside loc).removeEmptyDir p with
  | ok u' =>
    obtain ⟨w', hg', hd', -, -⟩ := removeEmptyDir_eq_ok_iff.mp hr
    have hpruned := isPruned_clearInside u loc
    obtain rfl := hg.unique (hpruned.goes hg')
    rw [hpruned.get?_of_ne_none (by simp [hd']), hl] at hd'
    cases hd'
  | error e =>
    rw [hr] at hok hgr
    cases e
    case notFound =>
      simp only at hgr ⊢
      have hnone : (u.clearInside loc).get? w.loc = none := by
        cases he : (u.clearInside loc).get? w.loc with
        | none => rfl
        | some e' =>
          have he' : (u.clearInside loc).get? (w.dir ++ [w.name]) = some e' := he
          rcases (isPruned_clearInside u loc).get? w.loc with h | h
          · simp [he] at h
          · obtain rfl : e' = .link target := Option.some.inj (he.symm.trans (h.trans hl))
            simp [removeEmptyDir, hgr.place, he', bind, Except.bind] at hr
      rw [get?_clearInside] at hnone ⊢
      split at hnone
      · next hin =>
        obtain ⟨hp, hne'⟩ := isInside_iff.mp hin
        have hdir : loc <+: w.dir := (List.prefix_concat_iff.mp hp).resolve_left hne'
        rw [if_pos]
        refine isInside_iff.mpr ⟨hdir.trans hq, ?_⟩
        rintro rfl
        exact hne (hq.eq_of_length_le hdir.length_le).symm
      · rw [hl] at hnone
        cases hnone
    all_goals cases hok

theorem isPruned_clearTarget (x : Stage) (u : FileTree) : IsPruned u (x.clearTarget u).2 := by
  cases hs : u.status true x.target with
  | error e =>
    rw [clearTarget_of_error hs]
    exact .refl u
  | ok s =>
    rw [clearTarget_of_ok hs]
    exact isPruned_remove u x.target

/-- A target that is cleared: there was no directory to remove, or all that was there is removed. -/
def Cleared (u : FileTree) (w : Way) (c : FileTree) : Prop :=
  c = u ∧ u.get? w.loc ≠ some .dir ∨ c = u.cut w.loc

theorem cleared_of_clearTarget (hc : x.clearTarget u = (.ok (), c)) (hg : c.Goes x.target w)
    (hl : w.name.length ≤ maxName) (hv : c.get? v.loc ≠ none) (hdir : v.dir = w.dir) :
    Cleared u w c := by
  cases hs : u.status true x.target with
  | error e =>
    rw [clearTarget_of_error hs] at hc
    obtain rfl := congrArg Prod.snd hc
    refine .inl ⟨rfl, fun hd => ?_⟩
    rw [(hg.status_eq_ok_iff (by simp [hd])).mpr ⟨rfl, hl, hd, fun _ => rfl⟩] at hs
    cases hs
  | ok s =>
    right
    rw [clearTarget_of_ok hs] at hc
    obtain ⟨hok, rfl⟩ := Prod.mk.inj hc
    have hok' : (u.remove x.target).1 = .ok () := by
      cases hr : (u.remove x.target).1 with
      | ok _ => rfl
      | error e =>
        rw [hr] at hok
        cases hok
    have hslash : x.target.endsWithSlash = true → ∀ p, u.get? w.loc ≠ some (.link p) := by
      intro hsl p hl
      refine hv (get?_remove_slash ((isPruned_remove u x.target).goes hg) hsl hl hs hok' hg ?_ ?_)
      · exact hdir ▸ List.prefix_append _ _
      · exact fun heq => by simpa [Way.loc, hdir] using congrArg List.length heq
    obtain ⟨loc, e⟩ := s
    obtain ⟨rfl, -, hget, -⟩ :=
      (((isPruned_remove u x.target).goes hg).status_eq_ok_iff hslash).mp hs
    rw [remove_eq_of_goes hs hget hg]

namespace Cleared

theorem get?_eq_none (h : Cleared u w c) (hwf : u.WellFormed)
    (hfree : c.get? w.loc = none ∨ c.get? w.loc = some .dir) (s : Loc) :
    c.get? (w.loc ++ s) = none := by
  rcases h with ⟨rfl, hd⟩ | rfl
  · by_cases hs : s = []
    · rw [hs, List.append_nil]
      exact hfree.resolve_right hd
    · exact hwf.get?_eq_none hs hd
  · rw [get?_cut w.loc_ne_nil]
    split
    · rfl
    · next hcov =>
      have hs : s ≠ [] := fun hs => hcov (.inl (by simp [hs]))
      refine hwf.get?_eq_none hs fun hd => hcov (.inr ⟨hd, ?_⟩)
      exact isInside_iff.mpr ⟨List.prefix_append _ _, by simp [hs]⟩

theorem get?_other (h : Cleared u w c) {q : Loc} (hq : ¬w.loc <+: q) : c.get? q = u.get? q := by
  rcases h with ⟨rfl, -⟩ | rfl
  · rfl
  · rw [get?_cut w.loc_ne_nil, if_neg fun hcov => hq hcov.isPrefix]

theorem ne (h : Cleared u w c) {q : Loc} (hu : u.get? q = some .dir) (hc : c.get? q = some .dir) :
    q ≠ w.loc := by
  rintro rfl
  rcases h with ⟨rfl, hd⟩ | rfl
  · exact hd hu
  · rw [get?_cut w.loc_ne_nil, if_pos (.inl rfl)] at hc
    cases hc

end Cleared

theorem get?_of_clearTarget (hc : x.clearTarget u = (.ok (), c)) (hg : c.Goes x.target w)
    (hl : w.name.length ≤ maxName) (hs : x.target.endsWithSlash = false) : c.get? w.loc = none := by
  have hgu : u.Goes x.target w := by
    have hpruned := isPruned_clearTarget x u
    rw [hc] at hpruned
    exact hpruned.goes hg
  have hslash : x.target.endsWithSlash = true → ∀ p, u.get? w.loc ≠ some (.link p) := by simp [hs]
  cases hst : u.status true x.target with
  | error e =>
    rw [clearTarget_of_error hst] at hc
    obtain rfl := congrArg Prod.snd hc
    cases he : u.get? w.loc with
    | none => rfl
    | some e' =>
      rw [(hgu.status_eq_ok_iff hslash).mpr ⟨rfl, hl, he, by simp [hs]⟩] at hst
      cases hst
  | ok s =>
    obtain ⟨loc, e⟩ := s
    obtain ⟨rfl, -, hget, -⟩ := (hgu.status_eq_ok_iff hslash).mp hst
    rw [clearTarget_of_ok hst] at hc
    obtain rfl := congrArg Prod.snd hc
    rw [remove_eq_of_goes hst hget hg, get?_cut w.loc_ne_nil, if_pos (.inl rfl)]

/-- What the path of a stage names has taken the place of what the path of the target names. -/
structure TakesPlace (x : Stage) (v w : Way) (u r : FileTree) : Prop extends Moved v.loc w.loc u r where
  stage : u.Goes x.path v
  target : u.Goes x.target w
  length : w.name.length ≤ maxName
  staged : u.get? v.loc ≠ none
  ne : v.loc ≠ w.loc
  /-- The path of the target does not pass what it names. -/
  aside : ∀ q ∈ w.places, ¬w.loc <+: q

theorem TakesPlace.goes (h : TakesPlace x v w u r) (hv : ∀ q ∈ w.places, ¬v.loc <+: q) :
    r.Goes x.target w :=
  h.target.congr h.cwd fun q hq => by rw [h.other (h.aside q hq), if_neg (hv q hq)]

/-- A publication that succeeds puts what the path of the stage names in the place of the target,
whatever it is, if both are in one directory. -/
theorem takesPlace_of_publish (hwf : u.WellFormed)
    (hdir : ∀ v w, u.Goes x.path v → u.Goes x.target w → v.dir = w.dir)
    (h : (x.publish u).1 = .ok ()) : ∃ v w, TakesPlace x v w u (x.publish u).2 := by
  have hnot : ¬∃ f, x.publish u = (.error f, (x.clearTarget u).2) := by
    rintro ⟨f, hf⟩
    rw [hf] at h
    cases h
  obtain ⟨c, hc, r, hr, hp⟩ := (publish_eq x u).resolve_right hnot
  rw [hp]
  have hpruned : IsPruned u c := by
    have hp := isPruned_clearTarget x u
    rwa [hc] at hp
  obtain ⟨v, w, e, hv, hw, he, -⟩ := exists_goes_of_rename hr
  have hvu := hpruned.goes hv
  have hwu := hpruned.goes hw
  have hsame := hdir v w hvu hwu
  have hu : u.get? v.loc = some e := (hpruned.get?_of_ne_none (by simp [he])).symm.trans he
  have hl : w.name.length ≤ maxName := length_of_rename hv hw he hr
  have hcleared := cleared_of_clearTarget hc hw hl (by simp [he]) hsame
  have hplace : v.loc ≠ w.loc ∧ (c.get? w.loc = none ∨ c.get? w.loc = some .dir) := by
    by_cases hd : e = .dir
    · subst hd
      obtain ⟨w', hw', -, hmove⟩ := rename_of_dir hv he hr
      obtain rfl := hw.unique hw'
      have hne := hcleared.ne hu he
      exact ⟨hne, (hmove hne).2.2.1⟩
    · obtain ⟨w', hw', -, hslash, -, -⟩ := rename_of_ne_dir hv he hd hr
      have hfree := get?_of_clearTarget hc hw hl hslash
      refine ⟨fun heq => ?_, .inl hfree⟩
      rw [heq, hfree] at he
      cases he
  have hempty := hcleared.get?_eq_none hwf hplace.2
  have hinside : e ≠ .dir → ∀ s, s ≠ [] → c.get? (v.loc ++ s) = none := fun hd s hs =>
    (hpruned.get? _).elim id fun hcu => hcu.trans (hwf.get?_eq_none hs (by simp [hu, hd]))
  have hmoved := moved_of_rename hv hw hsame hplace.1 he hinside hempty hr
  refine ⟨v, w, ⟨hmoved.cwd.trans hpruned.cwd, fun s => ?_, fun {q} hq => ?_⟩, hvu, hwu, hl,
    by simp [hu], hplace.1, ?_⟩
  · rw [hmoved.moved, hcleared.get?_other fun hpre =>
      hplace.1 (Way.loc_eq_of_isPrefix hsame.symm hpre).symm]
  · rw [hmoved.other hq, hcleared.get?_other hq]
  · rintro q hq ⟨s, rfl⟩
    exact hw.get?_ne_none _ hq (hempty s)

/-- A publication that succeeds puts the stage in the place of the target. -/
theorem publish_replaces (hwf : u.WellFormed) (hg : u.Goes x.path v)
    (hway : ∀ w, u.Goes x.target w → v.dir = w.dir ∧ ∀ q ∈ w.places, ¬v.loc <+: q)
    (h : (x.publish u).1 = .ok ()) : ∃ w, Replaces x v w u (x.publish u).2 := by
  obtain ⟨v', w, htakes⟩ := takesPlace_of_publish hwf
    (fun v' w hv hw => hg.unique hv ▸ (hway w hw).1) h
  obtain rfl := hg.unique htakes.stage
  exact ⟨w, htakes.goes (hway w htakes.target).2, htakes.length, htakes.moved, htakes.other⟩

end Stage
end EnvTemplate
