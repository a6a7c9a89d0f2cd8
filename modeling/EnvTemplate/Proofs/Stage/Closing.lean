import EnvTemplate.Proofs.Stage.Opening
import EnvTemplate.Proofs.Stage.Success

/-! How a stage ends where no links are.  A stage that is discarded is gone.  A stage beside a plain target
always takes the place of the target, unless a slash asks for a directory where a file stands. -/
namespace EnvTemplate

namespace FileTree

variable {t u : FileTree} {loc source target : Loc}

structure Cleaned (loc : Loc) (t u : FileTree) : Prop where
  cwd : u.cwd = t.cwd
  get? (q : Loc) : u.get? q = if loc <+: q then none else t.get? q

theorem Cleaned.noLinks (h : Cleaned loc t u) (hl : t.NoLinks) : u.NoLinks := fun q p => by
  rw [h.get?]
  split
  · simp
  · exact hl q p

theorem Cleaned.wellFormed (h : Cleaned loc t u) (hw : t.WellFormed) (hc : ¬loc <+: t.cwd) :
    u.WellFormed := by
  have hkeep : ∀ {d : Loc} {n : Bytes}, u.get? (d ++ [n]) ≠ none →
      t.get? (d ++ [n]) ≠ none ∧ ¬loc <+: d := by
    intro d n hn
    rw [h.get?] at hn
    split at hn
    · exact absurd rfl hn
    · next hp => exact ⟨hn, fun hd => hp (hd.trans (List.prefix_append d [n]))⟩
  refine ⟨fun {d n} hn => ?_, fun {d n} hn => hw.isName (hkeep hn).1, ?_⟩
  · obtain ⟨hn, hd⟩ := hkeep hn
    rw [h.get?, if_neg hd, hw.parent hn]
  · rw [h.get?, h.cwd, if_neg hc, hw.cwd]

theorem Moved.noLinks (h : Moved source target t u) (hl : t.NoLinks) : u.NoLinks := fun q p => by
  by_cases hq : target <+: q
  · obtain ⟨s, rfl⟩ := hq
    rw [h.moved]
    exact hl _ p
  · rw [h.other hq]
    split
    · simp
    · exact hl q p

theorem Moved.wellFormed {dir : Loc} {n m : Bytes} (h : Moved (dir ++ [n]) (dir ++ [m]) t u)
    (hw : t.WellFormed) (hd : t.get? (dir ++ [n]) = some .dir) (hm : IsName m)
    (hc : t.cwd.length ≤ dir.length) : u.WellFormed := by
  have hdir : t.get? dir = some .dir := hw.parent (by rw [hd]; simp)
  have hshort : ∀ {q : Loc} {x : Bytes}, q.length ≤ dir.length → ¬dir ++ [x] <+: q := by
    intro q x hq hp
    have hlen := hp.length_le
    rw [List.length_append, List.length_singleton] at hlen
    omega
  have hkeep : ∀ {q : Loc}, q.length ≤ dir.length → u.get? q = t.get? q := fun hq => by
    rw [h.other (hshort hq), if_neg (hshort hq)]
  refine ⟨fun {d x} hx => ?_, fun {d x} hx => ?_, ?_⟩
  · by_cases ht : dir ++ [m] <+: d
    · obtain ⟨s, rfl⟩ := ht
      rw [List.append_assoc, h.moved, ← List.append_assoc] at hx
      rw [h.moved]
      exact hw.parent hx
    · by_cases hdx : dir ++ [m] <+: d ++ [x]
      · rcases List.prefix_concat_iff.mp hdx with heq | hp
        · obtain rfl : dir = d := (List.append_inj' heq rfl).1
          exact (hkeep (Nat.le_refl _)).trans hdir
        · exact absurd hp ht
      · rw [h.other hdx] at hx
        split at hx
        · exact absurd rfl hx
        · next hs =>
          rw [h.other ht, if_neg fun hp => hs (hp.trans (List.prefix_append d [x]))]
          exact hw.parent hx
  · by_cases ht : dir ++ [m] <+: d ++ [x]
    · rcases List.prefix_concat_iff.mp ht with heq | hp
      · rw [← (List.cons.inj (List.append_inj' heq rfl).2).1]
        exact hm
      · obtain ⟨s, rfl⟩ := hp
        rw [List.append_assoc, h.moved, ← List.append_assoc] at hx
        exact hw.isName hx
    · rw [h.other ht] at hx
      split at hx
      · exact absurd rfl hx
      · exact hw.isName hx
  · rw [h.cwd, hkeep hc]
    exact hw.cwd

end FileTree

namespace Stage

open FileTree

variable {u : FileTree} {cwd : Loc} {target : Path} {n : Nat}

/-- A stage beside a target is there. -/
structure Stands (u : FileTree) (target : Path) (n : Nat) : Prop where
  site : Site u (pathFor u.cwd target n) (stageLoc u.cwd target n)
  isName : IsName (madeUp nameStart n)

theorem Stands.goes (h : Stands u target n) (hb : IsBeside target target.beside) :
    ∃ places, (∀ q ∈ places, q <+: parentLoc u.cwd target) ∧
      u.Goes (pathFor u.cwd target n) ⟨places, parentLoc u.cwd target, madeUp nameStart n⟩ := by
  have hparent : u.get? (parentLoc u.cwd target) = some .dir :=
    h.site.wellFormed.parent (n := madeUp nameStart n) (by rw [← stageLoc, h.site.dir]; simp)
  exact goes_pathFor h.site.wellFormed hb h.site.check h.isName.proper hparent

theorem Stands.discard (h : Stands u target n) (hb : IsBeside target target.beside) :
    Cleaned (stageLoc u.cwd target n) u (Stage.discard ⟨pathFor u.cwd target n, target⟩ u) := by
  obtain ⟨places, hpre, hg⟩ := h.goes hb
  obtain ⟨m, hm⟩ := h.site.named
  have hd := h.site.dir
  have hs : u.status true (pathFor u.cwd target n) = .ok (stageLoc u.cwd target n, .dir) :=
    (hg.status_eq_ok_iff (by simp [hm.endsWithSlash])).mpr ⟨rfl, h.isName.length, hd, fun _ => rfl⟩
  have hr := hg.remove_eq hs hd fun q hq hc =>
    not_stageLoc_isPrefix_parentLoc _ _ _ (hc.isPrefix.trans (hpre q hq))
  have hne := stageLoc_ne_nil u.cwd target n
  rw [Stage.discard, hr]
  refine ⟨(isPruned_cut hne u).cwd, fun q => ?_⟩
  have hcovers : u.Covers (stageLoc u.cwd target n) q ↔ stageLoc u.cwd target n <+: q := by
    refine ⟨Covers.isPrefix, fun hp => ?_⟩
    by_cases hq : q = stageLoc u.cwd target n
    · exact .inl hq
    · exact .inr ⟨hd, isInside_iff.mpr ⟨hp, Ne.symm hq⟩⟩
  have hget := get?_cut hne u q
  rw [Way.loc, ← stageLoc, hget]
  simp only [hcovers]

/-- A publication that has nothing in its way clears the target and renames the stage to it. -/
theorem CanReplace.exists_cleared {x : Stage} {w v : Way} (h : x.CanReplace u w v)
    (hlen : w.name.length ≤ maxName)
    (hslash : x.target.endsWithSlash = true → ∀ e, u.get? w.loc = some e → e = .dir) :
    ∃ c, Cleared u w c ∧ c.get? w.loc = none ∧ x.publish u = (.ok (), c.move v.loc w.loc) ∧
      c.cwd = u.cwd := by
  cases he : u.get? w.loc with
  | some e =>
    have hcut : (u.cut w.loc).get? w.loc = none := by rw [get?_cut w.loc_ne_nil, if_pos (.inl rfl)]
    have hs := (h.target.status_eq_ok_iff h.slash).mpr ⟨rfl, hlen, he, fun hs => hslash hs e he⟩
    exact ⟨_, .inr rfl, hcut, h.publish hs, (isPruned_cut w.loc_ne_nil u).cwd⟩
  | none =>
    have hs : ∃ e, u.status true x.target = .error e := by
      cases hs : u.status true x.target with
      | error e => exact ⟨e, rfl⟩
      | ok s =>
        obtain ⟨-, -, hsome, -⟩ := (h.target.status_eq_ok_iff h.slash).mp hs
        rw [he] at hsome
        cases hsome
    obtain ⟨e, hs⟩ := hs
    have hr := rename_dir h.stage h.target h.staged he hlen h.outside h.apart
    refine ⟨u, .inl ⟨rfl, by simp [he]⟩, he, ?_, rfl⟩
    simp only [Stage.publish, clearTarget_of_error hs, hr]

theorem Stands.canReplace (h : Stands u target n) (hp : IsPlain target) (hne : target ≠ [])
    (hname : madeUp nameStart n ∉ target.names) :
    ∃ w v, CanReplace ⟨pathFor u.cwd target n, target⟩ u w v ∧ w.loc = targetLoc u.cwd target ∧
      v.loc = stageLoc u.cwd target n ∧ w.name.length ≤ maxName := by
  obtain ⟨splaces, hspre, hg⟩ := h.goes (isBeside hp hne)
  obtain ⟨ns, m, hn⟩ := (List.eq_nil_or_concat target.names).resolve_left
    (Path.names_ne_nil hne hp.isAbsolute)
  rw [List.concat_eq_append] at hn
  have hm : IsName m := hp.isName m (by simp [hn])
  have hdir : parentLoc u.cwd target = u.cwd ++ ns := by rw [parentLoc, hn, List.dropLast_concat]
  have hparent := hg.get?_dir h.site.wellFormed
  rw [hdir] at hparent hspre hg
  obtain ⟨places, hpre, hw⟩ := hp.goes h.site.wellFormed hn hparent
  have hloc : targetLoc u.cwd target = u.cwd ++ ns ++ [m] := by
    rw [targetLoc, hn, List.append_assoc]
  have hstage : stageLoc u.cwd target n = u.cwd ++ ns ++ [madeUp nameStart n] := by rw [stageLoc, hdir]
  have hshort : ∀ {q : Loc} {x : Bytes}, q <+: u.cwd ++ ns → ¬u.cwd ++ ns ++ [x] <+: q := by
    intro q x hq hx
    have hlen := (hx.trans hq).length_le
    rw [List.length_append, List.length_singleton] at hlen
    omega
  have hdiff : ∀ {a b : Bytes}, a ≠ b → ¬u.cwd ++ ns ++ [a] <+: u.cwd ++ ns ++ [b] := by
    intro a b hab hx
    have hsame := (List.prefix_append_right_inj _).mp hx
    exact hab (by simpa using hsame)
  have hmn : m ≠ madeUp nameStart n := fun he => hname (he ▸ by simp [hn])
  refine ⟨_, _, ⟨hw, hg, fun _ p => h.site.noLinks _ p, ?_, ?_, ?_, hdiff hmn.symm, hdiff hmn⟩,
    hloc.symm, hstage.symm, hm.length⟩
  · rw [Way.loc, ← hstage]
    exact h.site.dir
  · exact fun q hq hc => hshort (hpre q hq) hc.isPrefix
  · exact fun q hq hc => hshort (hspre q hq) hc.isPrefix

theorem Stands.publish (h : Stands u target n) (hp : IsPlain target) (hne : target ≠ [])
    (hname : madeUp nameStart n ∉ target.names)
    (hslash : target.endsWithSlash = true → ∀ e, u.get? (targetLoc u.cwd target) = some e → e = .dir) :
    ∃ r, Stage.publish ⟨pathFor u.cwd target n, target⟩ u = (.ok (), r) ∧
      Moved (stageLoc u.cwd target n) (targetLoc u.cwd target) u r := by
  obtain ⟨w, v, hcan, hw, hv, hlen⟩ := h.canReplace hp hne hname
  obtain ⟨c, hcleared, hfree, hpub, hcwd⟩ :=
    hcan.exists_cleared hlen fun hs e he => hslash hs e (hw ▸ he)
  have hempty := hcleared.get?_eq_none h.site.wellFormed (.inl hfree)
  obtain ⟨hmoved, hother⟩ := get?_move v.loc_ne_nil w.loc_ne_nil hempty
  rw [← hw, ← hv]
  refine ⟨_, hpub, hcwd, fun s => ?_, fun {q} hq => ?_⟩
  · rw [hmoved, hcleared.get?_other]
    intro hpre
    rcases List.prefix_or_prefix_of_prefix hpre (List.prefix_append v.loc s) with hp | hp
    · exact hcan.apart hp
    · exact hcan.outside hp
  · rw [hother q hq, hcleared.get?_other hq]

end Stage
end EnvTemplate
