import EnvTemplate.Stage
import EnvTemplate.Proofs.FileTree.Replacement

/-! Publishing removes what stands at the target before the stage takes its place.  The main statement
says where nothing can go wrong between the two: neither path passes what is removed, and neither place
is in the other one.  A publication over something that fails does so too late, and what stood at the
target is lost. -/
namespace EnvTemplate
namespace Stage

open FileTree

variable {x : Stage} {t : FileTree} {w v : Way}

/-- A stage can take the place of its target: no path passes what stands at the target, and neither place
is in the other one.  A slash at the end of the target's path is not put after a link. -/
structure CanReplace (x : Stage) (t : FileTree) (w v : Way) : Prop where
  target : t.Goes x.target w
  stage : t.Goes x.path v
  slash : x.target.endsWithSlash = true → ∀ p, t.get? w.loc ≠ some (.link p)
  staged : t.get? v.loc = some .dir
  targetAside : ∀ q ∈ w.places, ¬t.Covers w.loc q
  stageAside : ∀ q ∈ v.places, ¬t.Covers w.loc q
  outside : ¬v.loc <+: w.loc
  apart : ¬w.loc <+: v.loc

/-! ### Clearing the target -/

theorem clearTarget_of_error {e : OsError} (h : t.status true x.target = .error e) :
    x.clearTarget t = (.ok (), t) := by
  simp only [clearTarget, h]

theorem clearTarget_of_ok {s : Loc × Entry} (h : t.status true x.target = .ok s) :
    x.clearTarget t = ((t.remove x.target).1.mapError fun e =>
      (Failure.ofOs ("remove ".toList ++ x.target.display) e).within
        "remove previous output".toList, (t.remove x.target).2) := by
  simp only [clearTarget, h]

theorem CanReplace.clearTarget (h : x.CanReplace t w v) {s : Loc × Entry}
    (hs : t.status true x.target = .ok s) : x.clearTarget t = (.ok (), t.cut w.loc) := by
  obtain ⟨loc, e⟩ := s
  obtain ⟨rfl, -, hd, -⟩ := (h.target.status_eq_ok_iff h.slash).1 hs
  rw [clearTarget_of_ok hs, h.target.remove_eq hs hd h.targetAside]
  rfl

/-! ### Publishing -/

theorem publish_eq (x : Stage) (t : FileTree) :
    (∃ u, x.clearTarget t = (.ok (), u) ∧ ∃ r, u.rename x.path x.target = .ok r ∧
      x.publish t = (.ok (), r)) ∨
    ∃ f, x.publish t = (.error f, (x.clearTarget t).2) := by
  unfold Stage.publish
  cases hc : x.clearTarget t with
  | mk r u =>
    cases r with
    | error f => exact .inr ⟨f, rfl⟩
    | ok a =>
      cases hr : u.rename x.path x.target with
      | error e => exact .inr ⟨_, by simp only [hr]; rfl⟩
      | ok r => exact .inl ⟨u, rfl, r, hr, by simp only [hr]⟩

theorem snd_publish_of_error {f : Failure} (hf : (x.publish t).1 = .error f) :
    (x.publish t).2 = (x.clearTarget t).2 := by
  rcases publish_eq x t with ⟨u, _, r, _, hr⟩ | ⟨f', hf'⟩
  · rw [hr] at hf
    cases hf
  · rw [hf']

theorem publish_of_error {e : OsError} (h : t.status true x.target = .error e) {f : Failure}
    (hf : (x.publish t).1 = .error f) : (x.publish t).2 = t := by
  rw [snd_publish_of_error hf, clearTarget_of_error h]

theorem CanReplace.publish (h : x.CanReplace t w v) {s : Loc × Entry}
    (hs : t.status true x.target = .ok s) :
    x.publish t = (.ok (), (t.cut w.loc).move v.loc w.loc) := by
  have hpruned := isPruned_cut w.loc_ne_nil t
  have hkeep : ∀ q, ¬t.Covers w.loc q → (t.cut w.loc).get? q = t.get? q := by
    intro q hq
    rw [get?_cut w.loc_ne_nil, if_neg hq]
  have hw : (t.cut w.loc).Goes x.target w :=
    h.target.congr hpruned.cwd fun q hq => hkeep q (h.targetAside q hq)
  have hv : (t.cut w.loc).Goes x.path v :=
    h.stage.congr hpruned.cwd fun q hq => hkeep q (h.stageAside q hq)
  have hd : (t.cut w.loc).get? v.loc = some .dir :=
    (hkeep v.loc fun hc => h.apart hc.isPrefix).trans h.staged
  have hn : (t.cut w.loc).get? w.loc = none := by
    rw [get?_cut w.loc_ne_nil, if_pos (.inl rfl)]
  obtain ⟨-, hl, -, -⟩ := (h.target.status_eq_ok_iff h.slash).1 hs
  simp only [Stage.publish, h.clearTarget hs, rename_dir hv hw hd hn hl h.outside h.apart]

theorem CanReplace.get?_publish (h : x.CanReplace t w v) {s : Loc × Entry}
    (hs : t.status true x.target = .ok s) {path : Loc} {e : Entry}
    (he : t.get? (v.loc ++ path) = some e) : (x.publish t).2.get? (w.loc ++ path) = some e := by
  have hkept : (t.cut w.loc).get? (v.loc ++ path) = some e := by
    rw [get?_cut w.loc_ne_nil, if_neg ?_, he]
    intro hc
    rcases List.prefix_or_prefix_of_prefix hc.isPrefix (List.prefix_append v.loc path) with hp | hp
    · exact h.apart hp
    · exact h.outside hp
  have hv : (v.loc ++ path).isEmpty = false := by simp [Way.loc]
  have hw : (w.loc ++ path).isEmpty = false := by simp [Way.loc]
  simp only [FileTree.get?, hv, Bool.false_eq_true, if_false] at hkept
  rw [h.publish hs]
  simp only [FileTree.get?, hw, Bool.false_eq_true, if_false]
  exact getElem?_move_target hkept w.loc

/-- Over something, a publication succeeds only where the stage can take its place. -/
theorem canReplace_of_publish {s : Loc × Entry} (hs : t.status true x.target = .ok s)
    (hslash : ∀ w, t.Goes x.target w → x.target.endsWithSlash = true →
      ∀ p, t.get? w.loc ≠ some (.link p))
    (hstaged : ∀ v, t.Goes x.path v → ∀ e, t.get? v.loc = some e → e = .dir)
    (h : (x.publish t).1 = .ok ()) : ∃ w v, x.CanReplace t w v := by
  obtain ⟨loc, e⟩ := s
  rcases publish_eq x t with ⟨u, hc, r, hr, -⟩ | ⟨f, hf⟩
  · have hu : u = (t.remove x.target).2 := by
      rw [clearTarget_of_ok hs] at hc
      exact (congrArg Prod.snd hc).symm
    obtain ⟨v, w, e', hv, hw, hd, hapart⟩ := exists_goes_of_rename hr
    have hpruned : IsPruned t u := hu ▸ isPruned_remove t x.target
    have htarget := hpruned.goes hw
    have hstage := hpruned.goes hv
    obtain ⟨rfl, -, hget, -⟩ := (htarget.status_eq_ok_iff (hslash w htarget)).1 hs
    have hcut : u = t.cut w.loc := by
      rw [hu, remove_eq_of_goes hs hget (hu ▸ hw)]
    have hkept : ∀ q, u.get? q ≠ none → ¬t.Covers w.loc q := by
      intro q hq hcov
      apply hq
      rw [hcut, get?_cut w.loc_ne_nil, if_pos hcov]
    have hdt : t.get? v.loc = some e' := (hpruned.get?_of_ne_none (by simp [hd])).symm.trans hd
    have hne : v.loc ≠ w.loc := fun heq => hkept v.loc (by simp [hd]) (.inl heq)
    obtain rfl := hstaged v hstage e' hdt
    obtain ⟨hvw, hwv⟩ := hapart rfl
    refine ⟨w, v, htarget, hstage, hslash w htarget, hdt,
      fun q hq => hkept q (hw.get?_ne_none q hq), fun q hq => hkept q (hv.get?_ne_none q hq), ?_, ?_⟩
    · exact fun hp => Bool.eq_false_iff.1 hvw (isInside_iff.2 ⟨hp, hne⟩)
    · exact fun hp => Bool.eq_false_iff.1 hwv (isInside_iff.2 ⟨hp, hne.symm⟩)
  · rw [hf] at h
    cases h

/-- What a failed publication found at the target is lost: a file or a link, and all that was in a
directory. -/
theorem get?_publish_of_error {loc q : Loc} {e : Entry}
    (hs : t.status true x.target = .ok (loc, e)) {f : Failure} (hf : (x.publish t).1 = .error f)
    (hq : t.Covers loc q) (hne : e = .dir → q ≠ loc) : (x.publish t).2.get? q = none := by
  rw [snd_publish_of_error hf, clearTarget_of_ok hs]
  by_cases he : e = .dir
  · subst he
    rcases hq with hq | ⟨-, hq⟩
    · exact absurd hq (hne rfl)
    · exact get?_remove_of_isInside hs hq
  · obtain ⟨-, w, -, rfl⟩ := exists_goes_of_status hs he
    rw [remove_of_ne_dir hs he, get?_cut w.loc_ne_nil, if_pos hq]

/-- Where the stage can take the place of whatever stands at the target, a publication replaces it, and
one that fails leaves no trace. -/
theorem publish_all_or_nothing (x : Stage) (t : FileTree)
    (h : ∀ s, t.status true x.target = .ok s → ∃ w v, x.CanReplace t w v) :
    (∀ s, t.status true x.target = .ok s → (x.publish t).1 = .ok ()) ∧
      ∀ f, (x.publish t).1 = .error f → (x.publish t).2 = t := by
  have hall : ∀ s, t.status true x.target = .ok s → (x.publish t).1 = .ok () := by
    intro s hs
    obtain ⟨w, v, hwv⟩ := h s hs
    rw [hwv.publish hs]
  refine ⟨hall, fun f hf => ?_⟩
  cases hs : t.status true x.target with
  | error e => exact publish_of_error hs hf
  | ok s => cases (hall s hs).symm.trans hf

/-! ### An output that is named through a link -/

namespace LinkedOutput

def d : Bytes := Path.ofText ['d']

def l : Bytes := Path.ofText ['l']

def out : Bytes := Path.ofText "out".toList

def fresh : Bytes := Path.ofText ".stage.000000".toList

/-- A directory with old output in it, and a link to the directory. -/
def before : FileTree :=
  ((((FileTree.mk ∅ [] 0).put [d] .dir).put [d, out] .dir).put [d, out, d]
    (.file (Utf8.encode "old".toList))).put [l] (.link d)

def opened : FileTree := { before.put [d, fresh] .dir with nextName := 1 }

def stage (target : Path) : Stage := ⟨Path.ofText "/l/.stage.000000".toList, target⟩

theorem leads_opened (n : Nat) : Leads opened (n + 1) [] [l] [d] [[l], [d]] := by
  have hl : opened.get? [l] = some (.link d) := by decide +kernel
  have hd : opened.get? [d] = some .dir := by decide +kernel
  refine .link (by decide) (by decide) hl ?_
  refine .down (by decide) (by decide) hd ?_
  exact .here n [d]

end LinkedOutput

open LinkedOutput

theorem publish_all_or_nothing_link :
    let x := stage (Path.ofText "l/out".toList)
    (prepare before x.target).1.toOption = some x ∧ (prepare before x.target).2 = opened ∧
      (∀ s, opened.status true x.target = .ok s → ∃ w v, x.CanReplace opened w v) ∧
      opened.status true x.target = .ok ([d, out], .dir) ∧ (x.publish opened).1 = .ok () := by
  intro x
  have hcan : x.CanReplace opened ⟨[[l], [d]], [d], out⟩ ⟨[[l], [d]], [d], fresh⟩ :=
    { target := ⟨rfl, by decide, [l], rfl, leads_opened _⟩
      stage := ⟨rfl, by decide, [l], rfl, leads_opened _⟩
      slash := fun h => absurd h (by decide)
      staged := by decide +kernel
      targetAside := by decide +kernel
      stageAside := by decide +kernel
      outside := by decide
      apart := by decide }
  have hs : opened.status true x.target = .ok ([d, out], .dir) := rfl
  have h : ∀ s, opened.status true x.target = .ok s → ∃ w v, x.CanReplace opened w v :=
    fun _ _ => ⟨_, _, hcan⟩
  refine ⟨by decide +kernel, by decide +kernel, h, hs, ?_⟩
  exact (publish_all_or_nothing x opened h).1 _ hs

/-- Old output is lost when it is named as the directory itself, which cannot be removed. -/
theorem publish_loses_output :
    let x := stage (Path.ofText "l/out/.".toList)
    (prepare before x.target).1.toOption = some x ∧ (prepare before x.target).2 = opened ∧
      (x.publish opened).1.toOption = none ∧
      opened.get? [d, out, d] = some (.file (Utf8.encode "old".toList)) ∧
      (x.publish opened).2.get? [d, out, d] = none := by
  decide +kernel

end Stage
end EnvTemplate
