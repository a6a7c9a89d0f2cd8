import EnvTemplate.Proofs.Stage.Later

/-! What is left of a stage after a publication that fails.  By then the target may have been removed, but
nothing else.  So the stage is still there with all that is in it, unless the target's path leads to a
directory that the stage is in, or into the stage; a directory that the stage is in takes the stage with
it. -/
namespace EnvTemplate
namespace Stage

open FileTree

variable {t u : FileTree} {target : Path} {x : Stage} {v : Way} {loc q : Loc} {f : Failure}

theorem get?_publish_of_not_isPrefix (hf : (x.publish u).1 = .error f)
    (hq : ∀ l e, u.status true x.target = .ok (l, e) → ¬l <+: q) :
    (x.publish u).2.get? q = u.get? q := by
  rw [snd_publish_of_error hf]
  cases hs : u.status true x.target with
  | error e => rw [clearTarget_of_error hs]
  | ok s =>
    obtain ⟨l, e⟩ := s
    rw [clearTarget_of_ok hs]
    exact get?_remove_of_not_isPrefix hs (hq l e hs)

/-- A stage that is in the directory that the target's path leads to is lost with it. -/
theorem publish_loses_inside {l : Loc} (hs : u.status true x.target = .ok (l, .dir))
    (hl : u.get? l = some .dir) (hin : isInside l loc = true) (hf : (x.publish u).1 = .error f) (s : Loc) :
    (x.publish u).2.get? (loc ++ s) = none := by
  obtain ⟨hpre, hne⟩ := isInside_iff.mp hin
  have hne' : loc ++ s ≠ l := fun heq =>
    hne (hpre.eq_of_length_le (by simp [← heq]))
  refine get?_publish_of_error hs hf (.inr ⟨hl, isInside_iff.mpr ⟨?_, hne'.symm⟩⟩) fun _ => hne'
  exact hpre.trans (List.prefix_append loc s)

/-- A stage is as it was. -/
structure Survives (x : Stage) (v : Way) (u r : FileTree) : Prop where
  goes : u.Goes x.path v
  tree (s : Loc) : r.get? (v.loc ++ s) = u.get? (v.loc ++ s)
  /-- The path of the stage leads to it, unless it passes what was removed. -/
  path (h : ∀ l e, u.status true x.target = .ok (l, e) → ∀ q ∈ v.places, ¬l <+: q) :
    r.status true x.path = .ok (v.loc, .dir)

theorem Lasts.not_isPrefix (h : x.Lasts u) (hv : u.Goes x.path v) (hd : u.get? v.loc = some .dir)
    {l : Loc} {e : Entry} (hs : u.status true x.target = .ok (l, e)) (he : e ≠ .dir) (s : Loc) :
    ¬l <+: v.loc ++ s := by
  intro hp
  obtain ⟨hslash, w, hw, rfl⟩ := exists_goes_of_status hs he
  obtain ⟨-, -, hget, -⟩ := (hw.status_eq_ok_iff (by simp [hslash])).mp hs
  rw [Way.loc_eq_of_isPrefix (h.dir_eq hv hw).symm hp, hd] at hget
  exact he (Option.some.inj hget).symm

/-- A stage survives a publication that fails, if a directory at the target neither has the stage in it nor
is in the stage. -/
theorem publish_keeps_stage (hx : (prepare t target).1 = .ok x) (hu : u.WellFormed) (hc : u.cwd = t.cwd)
    (hs : u.status true x.path = .ok (loc, .dir))
    (hapart : ∀ l, u.status true x.target = .ok (l, .dir) → ¬l <+: loc ∧ ¬loc <+: l)
    (hf : (x.publish u).1 = .error f) :
    ∃ v, v.loc = loc ∧ Survives x v u (x.publish u).2 := by
  obtain ⟨-, hlasts⟩ := lasts_of_prepare hx hu hc
  obtain ⟨above, name, hn, hproper, hslash⟩ := hlasts.names
  obtain ⟨v, hv, rfl, rfl⟩ := exists_goes_of_status_name hs hn hproper hslash
  obtain ⟨hd, -⟩ := get?_of_status hu hs
  have htree : ∀ s, (x.publish u).2.get? (v.loc ++ s) = u.get? (v.loc ++ s) := by
    intro s
    refine get?_publish_of_not_isPrefix hf fun l e hl hp => ?_
    by_cases he : e = .dir
    · subst he
      obtain ⟨hout, hin⟩ := hapart l hl
      exact (List.prefix_or_prefix_of_prefix hp (List.prefix_append v.loc s)).elim hout hin
    · exact hlasts.not_isPrefix hv hd hl he s hp
  refine ⟨v, rfl, hv, htree, fun hway => ?_⟩
  have hcwd : (x.publish u).2.cwd = u.cwd := by
    rw [snd_publish_of_error hf]
    exact (isPruned_clearTarget x u).cwd
  have hgoes : (x.publish u).2.Goes x.path v := hv.congr hcwd fun q hq =>
    get?_publish_of_not_isPrefix hf fun l e hl => hway l e hl q hq
  obtain ⟨-, hlen, -, -⟩ := (hv.status_eq_ok_iff (by simp [hslash])).mp hs
  have hstage := htree []
  rw [List.append_nil] at hstage
  exact (hgoes.status_eq_ok_iff (by simp [hslash])).mpr
    ⟨rfl, hlen, hstage.trans hd, by simp [hslash]⟩

open LinkedOutput

theorem publish_keeps_stage_link :
    let x := stage (Path.ofText "l/out/.".toList)
    let u := opened.put [d, fresh, out] (.file (Utf8.encode "new".toList))
    (prepare before x.target).1 = .ok x ∧ u.WellFormed ∧ u.cwd = before.cwd ∧
      u.status true x.path = .ok ([d, fresh], .dir) ∧
      (∀ l, u.status true x.target = .ok (l, .dir) → ¬l <+: [d, fresh] ∧ ¬[d, fresh] <+: l) ∧
      ∃ f, (x.publish u).1 = .error f ∧ ∃ v, v.loc = [d, fresh] ∧ Survives x v u (x.publish u).2 := by
  intro x u
  have hx : (prepare before x.target).1 = .ok x := toOption_eq_some_iff.mp (by decide +kernel)
  have hs : u.status true x.path = .ok ([d, fresh], .dir) :=
    toOption_eq_some_iff.mp (by decide +kernel)
  have ht : u.status true x.target = .ok ([d, out], .dir) :=
    toOption_eq_some_iff.mp (by decide +kernel)
  have hopened : opened.WellFormed :=
    (wellFormed_before.put (d := [d]) (n := fresh) (e := .dir) (by decide +kernel) (by decide)
      (.inl rfl)).congr rfl fun _ => rfl
  have hu : u.WellFormed :=
    hopened.put (d := [d, fresh]) (by decide +kernel) (by decide) (.inr (by decide +kernel))
  have hapart : ∀ l, u.status true x.target = .ok (l, .dir) →
      ¬l <+: [d, fresh] ∧ ¬[d, fresh] <+: l := by
    intro l hl
    rw [ht] at hl
    cases hl
    decide
  obtain ⟨f, hf⟩ : ∃ f, (x.publish u).1 = .error f := toOption_eq_none_iff.mp (by decide +kernel)
  exact ⟨hx, hu, rfl, hs, hapart, f, hf, publish_keeps_stage hx hu rfl hs hapart hf⟩

/-- A stage beside the current directory is in it, and is lost when that is to be replaced. -/
theorem publish_loses_stage :
    let x : Stage := ⟨Path.ofText "/./.stage.000000".toList, Path.dot⟩
    (prepare before x.target).1.toOption = some x ∧
      staged.status true x.path = .ok ([fresh], .dir) ∧ (x.publish staged).1.toOption = none ∧
      staged.get? [fresh, out] = some (.file (Utf8.encode "new".toList)) ∧
      (x.publish staged).2.get? [fresh, out] = none ∧ (x.publish staged).2.get? [fresh] = none := by
  intro x
  have ht : staged.status true x.target = .ok ([], .dir) := rfl
  obtain ⟨f, hf⟩ : ∃ f, (x.publish staged).1 = .error f :=
    toOption_eq_none_iff.mp (by decide +kernel)
  have hlost : ∀ s, (x.publish staged).2.get? ([fresh] ++ s) = none :=
    publish_loses_inside ht rfl (by decide) hf
  exact ⟨by decide +kernel, rfl, by decide +kernel, by decide +kernel, hlost [out], hlost []⟩

end Stage
end EnvTemplate
