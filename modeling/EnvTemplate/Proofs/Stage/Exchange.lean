import EnvTemplate.Proofs.Stage.Later

/-! What a publication exchanges.  A stage that was opened at some time takes the place of its target
later, in a tree that may have changed in any way.  Exactly what the stage holds by then stands at the
target afterwards, and a link that stood there is replaced, not followed. -/
namespace EnvTemplate
namespace Stage

open FileTree

variable {t u : FileTree} {target : Path} {x : Stage}

/-- A stage has taken the place of its target, which is in the same directory. -/
structure Exchange (x : Stage) (v w : Way) (u r : FileTree) : Prop extends TakesPlace x v w u r where
  beside : v.dir = w.dir
  gone (s : Loc) : r.get? (v.loc ++ s) = none
  /-- The target's path leads to what was in the stage, unless it passed the stage itself. -/
  leads (h : ∀ q ∈ w.places, ¬v.loc <+: q) : r.Goes x.target w
  /-- What a link at the target led to is still there, with what is in it, unless it moves along with the
  stage or has the stage and the target in it. -/
  pointee {p : Path} {loc : Loc} {e : Entry} (hl : u.get? w.loc = some (.link p))
    (hs : u.status false x.target = .ok (loc, e)) (hv : ¬v.loc <+: loc) :
    r.get? loc = some e ∧ (¬loc <+: w.dir → ∀ s, r.get? (loc ++ s) = u.get? (loc ++ s))

namespace TakesPlace

variable {r : FileTree} {v w : Way}

theorem gone (h : TakesPlace x v w u r) (hdir : v.dir = w.dir) (s : Loc) :
    r.get? (v.loc ++ s) = none := by
  rw [h.other fun hp => h.ne (Way.loc_eq_of_isPrefix hdir.symm hp).symm,
    if_pos (List.prefix_append _ _)]

theorem pointee (h : TakesPlace x v w u r) (hu : u.WellFormed) (hdir : v.dir = w.dir) {p : Path}
    {loc : Loc} {e : Entry} (hl : u.get? w.loc = some (.link p))
    (hs : u.status false x.target = .ok (loc, e)) (hv : ¬v.loc <+: loc) :
    r.get? loc = some e ∧ (¬loc <+: w.dir → ∀ s, r.get? (loc ++ s) = u.get? (loc ++ s)) := by
  obtain ⟨he, hlink⟩ := get?_of_status hu hs
  have hw : ¬w.loc <+: loc := by
    rintro ⟨s, rfl⟩
    by_cases hs : s = []
    · rw [hs, List.append_nil, hl] at he
      exact hlink rfl p (Option.some.inj he).symm
    · rw [hu.get?_eq_none hs (by simp [hl])] at he
      cases he
  have hkeep : ∀ {q}, ¬w.loc <+: q → ¬v.loc <+: q → r.get? q = u.get? q := fun hw hv => by
    rw [h.other hw, if_neg hv]
  have hbelow : ∀ {z : Way} {s : Loc}, z.dir = w.dir → ¬z.loc <+: loc → ¬loc <+: w.dir →
      ¬z.loc <+: loc ++ s := by
    intro z s hz hloc hout hp
    rcases List.prefix_or_prefix_of_prefix hp (List.prefix_append loc s) with hp | hp
    · exact hloc hp
    rcases List.prefix_concat_iff.mp hp with heq | hp
    · exact hloc (heq ▸ List.prefix_refl _)
    · exact hout (hz ▸ hp)
  exact ⟨(hkeep hw hv).trans he, fun hout s => hkeep (hbelow rfl hw hout) (hbelow hdir hv hout)⟩

end TakesPlace

/-- A publication that succeeds exchanges the target for exactly what is in the stage. -/
theorem publish_exchanges (hx : (prepare t target).1 = .ok x) (hu : u.WellFormed) (hc : u.cwd = t.cwd)
    (h : (x.publish u).1 = .ok ()) : ∃ v w, Exchange x v w u (x.publish u).2 := by
  obtain ⟨-, hlasts⟩ := lasts_of_prepare hx hu hc
  obtain ⟨v, w, htakes⟩ := takesPlace_of_publish hu (fun _ _ => hlasts.dir_eq) h
  have hdir := hlasts.dir_eq htakes.stage htakes.target
  exact ⟨v, w, { htakes with
    beside := hdir
    gone := htakes.gone hdir
    leads := htakes.goes
    pointee := htakes.pointee hu hdir }⟩

open LinkedOutput

theorem publish_exchanges_link :
    let x : Stage := ⟨Path.ofText "/./.stage.000000".toList, l⟩
    (prepare before l).1 = .ok x ∧ staged.WellFormed ∧ staged.cwd = before.cwd ∧
      (x.publish staged).1 = .ok () ∧ (∃ v w, Exchange x v w staged (x.publish staged).2) ∧
      (x.publish staged).2.get? [l, out] = some (.file (Utf8.encode "new".toList)) ∧
      (x.publish staged).2.get? [d, out, d] = some (.file (Utf8.encode "old".toList)) := by
  intro x
  have hx : (prepare before l).1 = .ok x := rfl
  have h : (x.publish staged).1 = .ok () := rfl
  exact ⟨hx, wellFormed_staged, rfl, h, publish_exchanges hx wellFormed_staged rfl h, by decide +kernel,
    by decide +kernel⟩

end Stage
end EnvTemplate
