import EnvTemplate.Proofs.Stage.Scripts

/-! Scripts that take turns.  Whatever the schedule, each of them finds in its stage what it has written
itself, every publication succeeds, and nothing else is changed but for the directories that the targets are
in.  When all scripts have ended, the tree does not depend on the schedule. -/
namespace EnvTemplate
namespace Stage

open FileTree

section Together

variable {ι : Type} {t u v : FileTree} {script : ι → Script} {number : ι → Nat} {c : Script} {n : Nat}
  {phase : Phase}

/-! ### What holds while scripts take turns -/

/-- The places that a script has changed when it has come so far. -/
def Phase.Owns (c : Script) (cwd : Loc) (n : Nat) : Phase → Loc → Prop
  | .staging _ _, q => stageLoc cwd c.target n <+: q
  | .ended _, q => c.commits = true ∧ targetLoc cwd c.target <+: q
  | _, _ => False

theorem Phase.Owns.inArea {cwd q : Loc} (h : phase.Owns c cwd n q) : c.InArea cwd n q := by
  cases phase with
  | waiting => exact h.elim
  | refused => exact h.elim
  | staging => exact .inl h
  | ended => exact .inr h.2

/-- What stands where a script has come so far: in its stage or at its target, just what it has written. -/
inductive Reaches (t : FileTree) (c : Script) (n : Nat) (u : FileTree) : Phase → Prop
  | waiting : Reaches t c n u .waiting
  | staging (done rest : List (Path × Text)) (h : c.writes = done ++ rest)
      (staged : ∀ p, u.get? (stageLoc t.cwd c.target n ++ p) =
        (c.alone t n done).get? (stageLoc t.cwd c.target n ++ p)) :
      Reaches t c n u (.staging (c.stage t.cwd n) rest)
  | published (h : c.commits = true)
      (target : ∀ p, u.get? (targetLoc t.cwd c.target ++ p) =
        (c.alone t n c.writes).get? (stageLoc t.cwd c.target n ++ p)) :
      Reaches t c n u (.ended (.ok ()))
  | discarded (h : c.commits = false) : Reaches t c n u (.ended (.ok ()))

/-- How far a script has come depends on the places that it has changed only. -/
theorem Reaches.congr (h : Reaches t c n u phase)
    (hv : ∀ q, phase.Owns c t.cwd n q → v.get? q = u.get? q) : Reaches t c n v phase := by
  cases h with
  | waiting => exact .waiting
  | staging done rest h hstaged =>
    exact .staging done rest h fun p => (hv _ (List.prefix_append _ p)).trans (hstaged p)
  | published h htarget =>
    exact .published h fun p => (hv _ ⟨h, List.prefix_append _ p⟩).trans (htarget p)
  | discarded h => exact .discarded h

def Workspace.IsMade (t : FileTree) (script : ι → Script) (s : Workspace ι) (q : Loc) : Prop :=
  t.get? q = none ∧ ∃ i, s.phase i ≠ .waiting ∧ q <+: parentLoc t.cwd (script i).target

/-- Some scripts have begun, and some of them have ended. -/
structure Takes (t : FileTree) (script : ι → Script) (number : ι → Nat) (s : Workspace ι) : Prop where
  wellFormed : s.tree.WellFormed
  noLinks : s.tree.NoLinks
  cwd : s.tree.cwd = t.cwd
  reaches (i : ι) : Reaches t (script i) (number i) s.tree (s.phase i)
  made {q : Loc} (h : ∀ i, ¬(s.phase i).Owns (script i) t.cwd (number i) q)
    (hm : s.IsMade t script q) : s.tree.get? q = some .dir
  same {q : Loc} (h : ∀ i, ¬(s.phase i).Owns (script i) t.cwd (number i) q)
    (hm : ¬s.IsMade t script q) : s.tree.get? q = t.get? q

structure Apart (t : FileTree) (script : ι → Script) (number : ι → Nat) : Prop where
  wellFormed : t.WellFormed
  noLinks : t.NoLinks
  separate : Separate t script
  fresh : Fresh t script number

namespace Apart

variable {i j : ι} {q : Loc} (h : Apart t script number)

include h

theorem canBegin (i : ι) : (script i).CanBegin t (number i) := by
  have hc := h.separate.isSound i
  obtain ⟨x, hx⟩ := h.fresh.opens i
  exact ⟨h.wellFormed, h.noLinks, hc,
    canOpen_of_prepare h.wellFormed h.noLinks hc.isPlain hc.ne_nil hx (h.fresh.free i)⟩

theorem not_isMade {s : Workspace ι} (hq : (script i).InArea t.cwd (number i) q) :
    ¬s.IsMade t script q := by
  rintro ⟨-, j, -, hp⟩
  exact not_inArea_of_isPrefix h.separate h.fresh hp hq

theorem get?_stage (hq : stageLoc t.cwd (script i).target (number i) <+: q) : t.get? q = none := by
  obtain ⟨p, rfl⟩ := hq
  by_cases hp : p = []
  · rw [hp, List.append_nil]
    exact h.fresh.free i
  · exact h.wellFormed.get?_eq_none hp (by rw [h.fresh.free i]; simp)

theorem not_owns {s : Workspace ι} (hq : (script i).InArea t.cwd (number i) q)
    (hi : ¬(s.phase i).Owns (script i) t.cwd (number i) q) (j : ι) :
    ¬(s.phase j).Owns (script j) t.cwd (number j) q := by
  by_cases hij : j = i
  · rwa [hij]
  · exact fun hj => not_inArea_of_ne h.separate h.fresh hij hq hj.inArea

theorem get?_of_not_owns {s : Workspace ι} (ht : Takes t script number s)
    (hq : (script i).InArea t.cwd (number i) q)
    (hi : ¬(s.phase i).Owns (script i) t.cwd (number i) q) : s.tree.get? q = t.get? q :=
  ht.same (h.not_owns hq hi) (h.not_isMade hq)

end Apart

section Used

variable {i : ι} {s : Workspace ι}

theorem Takes.canOpen (ht : Takes t script number s) (h : Apart t script number)
    (hs : s.phase i = .waiting) : CanOpen s.tree (script i).target (number i) := by
  have hb := h.canBegin i
  have hfree : s.tree.get? (stageLoc t.cwd (script i).target (number i)) = none :=
    (h.get?_of_not_owns ht (.inl (List.prefix_refl _)) (by rw [hs]; exact id)).trans (h.fresh.free i)
  refine ⟨fun {q} hq => ?_, by rw [ht.cwd]; exact hb.canOpen.check, hb.canOpen.isName, by rwa [ht.cwd]⟩
  rw [ht.cwd] at hq
  have hway : ∀ j, ¬(s.phase j).Owns (script j) t.cwd (number j) q := fun j ho =>
    not_inArea_of_isPrefix h.separate h.fresh hq ho.inArea
  by_cases hm : s.IsMade t script q
  · exact .inr (ht.made hway hm)
  · rw [ht.same hway hm]
    exact hb.canOpen.way hq

structure Staging (t : FileTree) (c : Script) (n : Nat) (u : FileTree) (x : Stage)
    (done rest : List (Path × Text)) : Prop where
  stage : x = c.stage t.cwd n
  writes : c.writes = done ++ rest
  twins : Twins x.path x.path (stageLoc t.cwd c.target n) (stageLoc t.cwd c.target n) u (c.alone t n done)

theorem Takes.exists_staging (ht : Takes t script number s) (h : Apart t script number) {x : Stage}
    {rest : List (Path × Text)} (hs : s.phase i = .staging x rest) :
    ∃ done, Staging t (script i) (number i) s.tree x done rest := by
  have hb := h.canBegin i
  have hr := ht.reaches i
  rw [hs] at hr
  cases hr with
  | staging done _ hwrites hstaged =>
    have halone := hb.twins hb rfl done fun w hw => hwrites ▸ List.mem_append_left _ hw
    have hd : s.tree.get? (stageLoc t.cwd (script i).target (number i)) = some .dir := by
      have hroot := hstaged []
      rw [List.append_nil] at hroot
      exact hroot.trans halone.site.dir
    have hsite := hb.canOpen.site h.wellFormed (isBeside hb.isSound.isPlain hb.isSound.ne_nil)
      ht.wellFormed ht.noLinks hd
    exact ⟨done, rfl, hwrites, hsite, halone.site, rfl, hstaged⟩

theorem Takes.stands (ht : Takes t script number s) (h : Apart t script number) {x : Stage}
    {rest : List (Path × Text)} (hs : s.phase i = .staging x rest) :
    x = (script i).stage s.tree.cwd (number i) ∧ Stands s.tree (script i).target (number i) := by
  obtain ⟨done, rfl, -, htwins⟩ := ht.exists_staging h hs
  rw [ht.cwd]
  refine ⟨rfl, ?_, (h.canBegin i).canOpen.isName⟩
  rw [ht.cwd]
  exact htwins.site

end Used

/-! ### One step -/

section Step

variable [DecidableEq ι] {i : ι} {s : Workspace ι}

def Workspace.put (s : Workspace ι) (i : ι) (phase : Phase) (u : FileTree) : Workspace ι :=
  ⟨u, fun j => if j = i then phase else s.phase j⟩

theorem Workspace.phase_put_self (s : Workspace ι) (i : ι) (phase : Phase) (u : FileTree) :
    (s.put i phase u).phase i = phase := if_pos rfl

theorem Workspace.phase_put_of_ne {j : ι} (h : j ≠ i) (s : Workspace ι) (phase : Phase) (u : FileTree) :
    (s.put i phase u).phase j = s.phase j := if_neg h

theorem Workspace.isMade_put (hs : s.phase i ≠ .waiting) (hp : phase ≠ .waiting) {q : Loc} :
    (s.put i phase u).IsMade t script q ↔ s.IsMade t script q := by
  have hphase : ∀ j, (s.put i phase u).phase j ≠ .waiting ↔ s.phase j ≠ .waiting := by
    intro j
    by_cases hj : j = i
    · subst hj
      rw [phase_put_self]
      exact iff_of_true hp hs
    · rw [phase_put_of_ne hj]
  simp only [IsMade, hphase]

theorem Workspace.isMade_put_of_waiting (hs : s.phase i = .waiting) (hp : phase ≠ .waiting) {q : Loc} :
    (s.put i phase u).IsMade t script q ↔
      s.IsMade t script q ∨ t.get? q = none ∧ q <+: parentLoc t.cwd (script i).target := by
  constructor
  · rintro ⟨hnone, j, hj, hpre⟩
    by_cases hji : j = i
    · exact .inr ⟨hnone, hji ▸ hpre⟩
    · rw [phase_put_of_ne hji] at hj
      exact .inl ⟨hnone, j, hj, hpre⟩
  · rintro (⟨hnone, j, hj, hpre⟩ | ⟨hnone, hpre⟩)
    · have hji : j ≠ i := by
        rintro rfl
        exact hj hs
      exact ⟨hnone, j, by rwa [phase_put_of_ne hji], hpre⟩
    · exact ⟨hnone, i, by rwa [phase_put_self], hpre⟩

theorem Workspace.not_owns_of_put {cwd q : Loc}
    (hq : ∀ j, ¬((s.put i phase u).phase j).Owns (script j) cwd (number j) q)
    (hi : ¬(s.phase i).Owns (script i) cwd (number i) q) (j : ι) :
    ¬(s.phase j).Owns (script j) cwd (number j) q := by
  by_cases hj : j = i
  · rwa [hj]
  · have hqj := hq j
    rwa [phase_put_of_ne hj] at hqj

/-- A step of a script that has begun changes what the script is about, and nothing else. -/
theorem Takes.put (ht : Takes t script number s) (h : Apart t script number) (hs : s.phase i ≠ .waiting)
    (hp : phase ≠ .waiting) (hw : u.WellFormed) (hl : u.NoLinks) (hc : u.cwd = t.cwd)
    (hr : Reaches t (script i) (number i) u phase)
    (hout : ∀ q, ¬(script i).InArea t.cwd (number i) q → u.get? q = s.tree.get? q)
    (hin : ∀ q, (script i).InArea t.cwd (number i) q →
      ¬phase.Owns (script i) t.cwd (number i) q → u.get? q = t.get? q) :
    Takes t script number (s.put i phase u) := by
  refine ⟨hw, hl, hc, fun j => ?_, fun {q} hq hm => ?_, fun {q} hq hm => ?_⟩
  · by_cases hj : j = i
    · subst hj
      rwa [Workspace.phase_put_self]
    · rw [Workspace.phase_put_of_ne hj]
      refine (ht.reaches j).congr fun q hq => hout q ?_
      exact not_inArea_of_ne h.separate h.fresh (Ne.symm hj) hq.inArea
  · by_cases hi : (script i).InArea t.cwd (number i) q
    · exact absurd hm (h.not_isMade hi)
    · have hold := Workspace.not_owns_of_put hq fun ho => hi ho.inArea
      exact (hout q hi).trans (ht.made hold ((Workspace.isMade_put hs hp).mp hm))
  · by_cases hi : (script i).InArea t.cwd (number i) q
    · have hown := hq i
      rw [Workspace.phase_put_self] at hown
      exact hin q hi hown
    · have hold := Workspace.not_owns_of_put hq fun ho => hi ho.inArea
      exact (hout q hi).trans (ht.same hold fun hm' => hm ((Workspace.isMade_put hs hp).mpr hm'))

theorem Takes.put_opened (ht : Takes t script number s) (h : Apart t script number)
    (hs : s.phase i = .waiting) (ho : Opened s.tree (script i).target (number i) u) :
    Takes t script number
      (s.put i (.staging ((script i).stage t.cwd (number i)) (script i).writes) u) := by
  have hb := h.canBegin i
  have hget := ho.get?
  have hstage := ho.get?_append ht.wellFormed (ht.canOpen h hs).free
  simp only [ht.cwd] at hget hstage
  have hnot : ∀ q, ¬(s.phase i).Owns (script i) t.cwd (number i) q := fun q => by
    rw [hs]
    exact id
  have hmade : ∀ {q : Loc}, (s.put i (.staging ((script i).stage t.cwd (number i)) (script i).writes)
      u).IsMade t script q ↔
        s.IsMade t script q ∨ t.get? q = none ∧ q <+: parentLoc t.cwd (script i).target :=
    Workspace.isMade_put_of_waiting hs (by simp)
  refine ⟨ho.site.wellFormed, ho.site.noLinks, ho.cwd.trans ht.cwd, fun j => ?_, fun {q} hq hm => ?_,
    fun {q} hq hm => ?_⟩
  · by_cases hj : j = i
    · subst hj
      rw [Workspace.phase_put_self]
      exact .staging [] _ rfl fun p => (hstage p).trans (hb.get?_alone_nil p).symm
    · rw [Workspace.phase_put_of_ne hj]
      refine (ht.reaches j).congr fun q hq => (hget q).trans (if_neg ?_)
      rintro (rfl | ⟨-, hp⟩)
      · exact not_inArea_of_ne h.separate h.fresh (Ne.symm hj) hq.inArea (.inl (List.prefix_refl _))
      · exact not_inArea_of_isPrefix h.separate h.fresh hp hq.inArea
  · have hold := Workspace.not_owns_of_put hq (hnot q)
    refine (hget q).trans ?_
    split
    · rfl
    next hcond =>
    by_cases hm' : s.IsMade t script q
    · exact ht.made hold hm'
    · obtain ⟨hnone, hp⟩ := (hmade.mp hm).resolve_left hm'
      exact absurd (.inr ⟨(ht.same hold hm').trans hnone, hp⟩) hcond
  · have hm' : ¬s.IsMade t script q := fun hm' => hm (hmade.mpr (.inl hm'))
    have hsame := ht.same (Workspace.not_owns_of_put hq (hnot q)) hm'
    refine ((hget q).trans (if_neg ?_)).trans hsame
    rintro (rfl | ⟨hnone, hp⟩)
    · have hown := hq i
      rw [Workspace.phase_put_self] at hown
      exact hown (List.prefix_refl _)
    · exact hm (hmade.mpr (.inr ⟨hsame.symm.trans hnone, hp⟩))

theorem Takes.begin (ht : Takes t script number s) (h : Apart t script number)
    (hs : s.phase i = .waiting) :
    ∃ u, prepare { s.tree with nextName := number i } (script i).target =
        (.ok ((script i).stage t.cwd (number i)), u) ∧
      Takes t script number
        (s.put i (.staging ((script i).stage t.cwd (number i)) (script i).writes) u) := by
  have hb := h.canBegin i
  obtain ⟨u, hu, ho⟩ := (ht.canOpen h hs).opened ht.wellFormed ht.noLinks hb.isSound.isPlain
    hb.isSound.ne_nil
  refine ⟨u, ?_, ht.put_opened h hs ho⟩
  rw [hu, ht.cwd, Script.stage]

theorem Takes.write (ht : Takes t script number s) (h : Apart t script number) {x : Stage} {p : Path}
    {text : Text} {rest : List (Path × Text)} (hs : s.phase i = .staging x ((p, text) :: rest)) :
    Takes t script number (s.put i (.staging x rest) (x.write s.tree p text).2) := by
  have hb := h.canBegin i
  obtain ⟨done, rfl, hwrites, htwins⟩ := ht.exists_staging h hs
  have hmem : (p, text) ∈ (script i).writes := by simp [hwrites]
  obtain ⟨habs, hstays⟩ := hb.isSound.stays _ hmem
  have hgrown := htwins.stageWrite habs hstays text
  refine ht.put h (by simp [hs]) (by simp) hgrown.twins.site.wellFormed hgrown.twins.site.noLinks
    (hgrown.within.cwd.trans ht.cwd) ?_ (fun q hq => ?_) fun q hq hn => ?_
  · refine .staging (done ++ [(p, text)]) rest (by simp [hwrites]) fun r => ?_
    rw [hb.alone_concat]
    exact hgrown.twins.get? r
  · exact hgrown.within.outside fun hp => hq (.inl hp)
  · exact (hgrown.within.outside hn).trans (h.get?_of_not_owns ht hq (by rw [hs]; exact hn))

theorem Takes.publish (ht : Takes t script number s) (h : Apart t script number) {x : Stage}
    (hs : s.phase i = .staging x []) (hc : (script i).commits = true) :
    ∃ u, x.publish s.tree = (.ok (), u) ∧ Takes t script number (s.put i (.ended (.ok ())) u) := by
  have hsound := h.separate.isSound i
  have hsame : ∀ q, (script i).InArea t.cwd (number i) q →
      ¬stageLoc t.cwd (script i).target (number i) <+: q → s.tree.get? q = t.get? q := fun q hq hn =>
    h.get?_of_not_owns ht hq (by rw [hs]; exact hn)
  have hslash : (script i).target.endsWithSlash = true →
      ∀ e, s.tree.get? (targetLoc s.tree.cwd (script i).target) = some e → e = .dir := by
    intro hsl e he
    rw [ht.cwd, hsame _ (.inr (List.prefix_refl _)) (h.fresh.not_stageLoc_isPrefix i i t.cwd)] at he
    exact hsound.slash hsl e he
  obtain ⟨hx, hstands⟩ := ht.stands h hs
  obtain ⟨done, -, hwrites, htwins⟩ := ht.exists_staging h hs
  rw [List.append_nil] at hwrites
  obtain ⟨u, hu, hmoved⟩ := hstands.publish hsound.isPlain hsound.ne_nil (h.fresh.unused i i) hslash
  obtain ⟨m, hm, htarget⟩ := targetLoc_eq hsound.isPlain hsound.ne_nil s.tree.cwd
  have hw : u.WellFormed := by
    rw [stageLoc, htarget] at hmoved
    refine hmoved.wellFormed ht.wellFormed hstands.site.dir hm ?_
    rw [parentLoc, List.length_append]
    omega
  rw [ht.cwd] at hmoved
  refine ⟨u, hx ▸ hu, ht.put h (by simp [hs]) (by simp) hw (hmoved.noLinks ht.noLinks)
    (hmoved.cwd.trans ht.cwd) ?_ (fun q hq => ?_) fun q hq hn => ?_⟩
  · refine .published hc fun p => ?_
    rw [hmoved.moved, hwrites]
    exact htwins.get? p
  · rw [hmoved.other fun hp => hq (.inr hp), if_neg fun hp => hq (.inl hp)]
  · have hpre := hq.resolve_right fun hp => hn ⟨hc, hp⟩
    rw [hmoved.other fun hp => hn ⟨hc, hp⟩, if_pos hpre, h.get?_stage hpre]

theorem Takes.discard (ht : Takes t script number s) (h : Apart t script number) {x : Stage}
    (hs : s.phase i = .staging x []) (hc : (script i).commits = false) :
    Takes t script number (s.put i (.ended (.ok ())) (x.discard s.tree)) := by
  have hsound := h.separate.isSound i
  obtain ⟨hx, hstands⟩ := ht.stands h hs
  have hcleaned : Cleaned (stageLoc s.tree.cwd (script i).target (number i)) s.tree (x.discard s.tree) :=
    hx ▸ hstands.discard (isBeside hsound.isPlain hsound.ne_nil)
  have hw : (x.discard s.tree).WellFormed := by
    refine hcleaned.wellFormed ht.wellFormed fun hp => ?_
    have hlen := hp.length_le
    rw [stageLoc, parentLoc, List.length_append, List.length_append, List.length_singleton] at hlen
    omega
  rw [ht.cwd] at hcleaned
  refine ht.put h (by simp [hs]) (by simp) hw (hcleaned.noLinks ht.noLinks) (hcleaned.cwd.trans ht.cwd)
    (.discarded hc) (fun q hq => ?_) fun q hq _ => ?_
  · rw [hcleaned.get?, if_neg fun hp => hq (.inl hp)]
  · rw [hcleaned.get?]
    split
    · next hp => rw [h.get?_stage hp]
    · next hp => exact h.get?_of_not_owns ht hq (by rw [hs]; exact hp)

theorem Workspace.put_phase (s : Workspace ι) (i : ι) : s.put i (s.phase i) s.tree = s := by
  have hphase : (fun j => if j = i then s.phase i else s.phase j) = s.phase := by
    funext j
    split
    · next hj => rw [hj]
    · rfl
  rw [Workspace.put, hphase]

/-- Whoever takes the next step, the others are not disturbed. -/
theorem Takes.step (ht : Takes t script number s) (h : Apart t script number) (i : ι) :
    Takes t script number (s.step script number i) := by
  have hstep : s.step script number i = s.put i ((script i).advance (number i) (s.phase i) s.tree).1
      ((script i).advance (number i) (s.phase i) s.tree).2 := rfl
  rw [hstep]
  cases hs : s.phase i with
  | waiting =>
    obtain ⟨u, hu, hnext⟩ := ht.begin h hs
    simpa only [Script.advance, hu] using hnext
  | refused f =>
    have hr := ht.reaches i
    rw [hs] at hr
    cases hr
  | staging x rest =>
    cases rest with
    | cons w rest =>
      obtain ⟨p, text⟩ := w
      exact ht.write h hs
    | nil =>
      cases hc : (script i).commits with
      | true =>
        obtain ⟨u, hu, hnext⟩ := ht.publish h hs hc
        simpa only [Script.advance, hc, if_true, hu] using hnext
      | false =>
        have hnext := ht.discard h hs hc
        simpa only [Script.advance, hc, Bool.false_eq_true, if_false] using hnext
  | ended r =>
    have hsame := s.put_phase i
    rw [hs] at hsame
    exact hsame.symm ▸ ht

/-- Scripts may take any number of steps in any order. -/
theorem takes_run (h : Apart t script number) (schedule : List ι) :
    Takes t script number (Workspace.run script number t schedule) := by
  have hsteps : ∀ s, Takes t script number s →
      Takes t script number (schedule.foldl (Workspace.step script number) s) := by
    induction schedule with
    | nil => exact fun s hs => hs
    | cons i schedule ih => exact fun s hs => ih _ (hs.step h i)
  refine hsteps _ ⟨h.wellFormed, h.noLinks, rfl, fun i => .waiting, fun {q} _ hm => ?_, fun {q} _ _ => rfl⟩
  obtain ⟨-, i, hi, -⟩ := hm
  exact absurd rfl hi

end Step

/-! ### What the scripts come to -/

/-- Scripts that have not disturbed each other. -/
structure Undisturbed (t : FileTree) (script : ι → Script) (number : ι → Nat) (s : Workspace ι) : Prop where
  /-- Every stage is opened, and every publication succeeds. -/
  phase (i : ι) : s.phase i = .waiting ∨ (∃ x rest, s.phase i = .staging x rest) ∨
    s.phase i = .ended (.ok ())
  staged {i : ι} {x : Stage} {rest : List (Path × Text)} (h : s.phase i = .staging x rest) :
    ∃ done, (script i).writes = done ++ rest ∧
      ∀ p, s.tree.get? (stageLoc t.cwd (script i).target (number i) ++ p) =
        ((script i).alone t (number i) done).get? (stageLoc t.cwd (script i).target (number i) ++ p)
  /-- A target is a directory with just what was staged, once its stage is published. -/
  published {i : ι} {r : Except Failure Unit} (h : s.phase i = .ended r) (hc : (script i).commits = true) :
    s.tree.status true (script i).target = .ok (targetLoc t.cwd (script i).target, .dir) ∧
      ∀ p, s.tree.get? (targetLoc t.cwd (script i).target ++ p) =
        ((script i).alone t (number i) (script i).writes).get?
          (stageLoc t.cwd (script i).target (number i) ++ p)
  /-- Until then, and if the stage is discarded, the target is as before. -/
  kept {i : ι} (h : (∀ r, s.phase i ≠ .ended r) ∨ (script i).commits = false) (p : Loc) :
    s.tree.get? (targetLoc t.cwd (script i).target ++ p) = t.get? (targetLoc t.cwd (script i).target ++ p)
  /-- Nothing is left of a stage that was published or discarded. -/
  removed {i : ι} {r : Except Failure Unit} (h : s.phase i = .ended r) (p : Loc) :
    s.tree.get? (stageLoc t.cwd (script i).target (number i) ++ p) = none
  /-- What is not at a target stays. -/
  other {q : Loc} (h : t.get? q ≠ none) (hq : ∀ i, ¬targetLoc t.cwd (script i).target <+: q) :
    s.tree.get? q = t.get? q

theorem Takes.published {s : Workspace ι} (ht : Takes t script number s) {i : ι} {r : Except Failure Unit}
    (hs : s.phase i = .ended r) (hc : (script i).commits = true) (p : Loc) :
    s.tree.get? (targetLoc t.cwd (script i).target ++ p) =
      ((script i).alone t (number i) (script i).writes).get?
        (stageLoc t.cwd (script i).target (number i) ++ p) := by
  have hr := ht.reaches i
  rw [hs] at hr
  cases hr with
  | published _ htarget => exact htarget p
  | discarded hc' =>
    rw [hc] at hc'
    cases hc'

section Undisturbed

variable {s : Workspace ι} {i : ι} (ht : Takes t script number s) (h : Apart t script number)

include ht h

theorem Takes.kept (hs : (∀ r, s.phase i ≠ .ended r) ∨ (script i).commits = false) (p : Loc) :
    s.tree.get? (targetLoc t.cwd (script i).target ++ p) =
      t.get? (targetLoc t.cwd (script i).target ++ p) := by
  refine h.get?_of_not_owns ht (.inr (List.prefix_append _ p)) ?_
  cases hp : s.phase i with
  | waiting => exact id
  | refused => exact id
  | staging => exact fun ho => stage_apart_target h.separate h.fresh ho (List.prefix_append _ p)
  | ended r =>
    rintro ⟨hc, -⟩
    rcases hs with hs | hc'
    · exact hs r hp
    · rw [hc] at hc'
      cases hc'

theorem Takes.removed {r : Except Failure Unit} (hs : s.phase i = .ended r) (p : Loc) :
    s.tree.get? (stageLoc t.cwd (script i).target (number i) ++ p) = none := by
  have hpre := List.prefix_append (stageLoc t.cwd (script i).target (number i)) p
  rw [h.get?_of_not_owns ht (.inl hpre), h.get?_stage hpre]
  rw [hs]
  rintro ⟨-, ho⟩
  exact stage_apart_target h.separate h.fresh hpre ho

theorem Takes.other {q : Loc} (hq : t.get? q ≠ none)
    (htarget : ∀ i, ¬targetLoc t.cwd (script i).target <+: q) : s.tree.get? q = t.get? q := by
  refine ht.same (fun i ho => ?_) fun hm => hq hm.1
  rcases ho.inArea with hp | hp
  · exact hq (h.get?_stage hp)
  · exact htarget i hp

theorem Takes.undisturbed : Undisturbed t script number s := by
  refine ⟨fun i => ?_, fun {i x rest} hs => ?_, fun {i r} hs hc => ?_, fun {i} => ht.kept h,
    fun {i r} => ht.removed h, fun {q} => ht.other h⟩
  · have hr := ht.reaches i
    cases hs : s.phase i with
    | waiting => exact .inl rfl
    | refused f =>
      rw [hs] at hr
      cases hr
    | staging x rest => exact .inr (.inl ⟨x, rest, rfl⟩)
    | ended r =>
      rw [hs] at hr
      cases hr <;> exact .inr (.inr rfl)
  · obtain ⟨done, -, hwrites, htwins⟩ := ht.exists_staging h hs
    exact ⟨done, hwrites, htwins.get?⟩
  · have hb := h.canBegin i
    have hroot := ht.published hs hc []
    rw [List.append_nil, List.append_nil, (hb.twins hb rfl _ fun w hw => hw).site.dir] at hroot
    rw [← ht.cwd] at hroot
    refine ⟨?_, ht.published hs hc⟩
    rw [← ht.cwd]
    exact hb.isSound.isPlain.status ht.wellFormed ht.noLinks hb.isSound.ne_nil hroot

end Undisturbed

/-- What scripts come to that have all ended does not depend on their order, nor on the names of the
stages. -/
theorem Takes.get?_congr {number' : ι → Nat} {s s' : Workspace ι} (ht : Takes t script number s)
    (ht' : Takes t script number' s') (h : Apart t script number) (h' : Apart t script number')
    (hc : s.IsComplete) (hc' : s'.IsComplete) (q : Loc) : s.tree.get? q = s'.tree.get? q := by
  by_cases hq : ∃ i, (script i).commits = true ∧ targetLoc t.cwd (script i).target <+: q
  · obtain ⟨i, hcommits, p, rfl⟩ := hq
    obtain ⟨r, hr⟩ := Phase.exists_of_isEnded (hc i)
    obtain ⟨r', hr'⟩ := Phase.exists_of_isEnded (hc' i)
    have hlen := (h.fresh.length i).trans (h'.fresh.length i).symm
    rw [ht.published hr hcommits, ht'.published hr' hcommits]
    exact ((h.canBegin i).twins (h'.canBegin i) hlen _ fun w hw => hw).get? p
  · have hfree : ∀ {n : ι → Nat} {s : Workspace ι}, s.IsComplete →
        ∀ i, ¬(s.phase i).Owns (script i) t.cwd (n i) q := by
      intro n s hs i ho
      obtain ⟨r, hr⟩ := Phase.exists_of_isEnded (hs i)
      rw [hr] at ho
      exact hq ⟨i, ho⟩
    have hmade : ∀ {s : Workspace ι}, s.IsComplete → (s.IsMade t script q ↔
        t.get? q = none ∧ ∃ i, q <+: parentLoc t.cwd (script i).target) := by
      refine fun hs => and_congr_right fun _ => exists_congr fun i => and_iff_right ?_
      obtain ⟨r, hr⟩ := Phase.exists_of_isEnded (hs i)
      simp [hr]
    by_cases hm : t.get? q = none ∧ ∃ i, q <+: parentLoc t.cwd (script i).target
    · rw [ht.made (hfree hc) ((hmade hc).mpr hm), ht'.made (hfree hc') ((hmade hc').mpr hm)]
    · rw [ht.same (hfree hc) (mt (hmade hc).mp hm), ht'.same (hfree hc') (mt (hmade hc').mp hm)]

theorem isComplete_run [DecidableEq ι] (h : Apart t script number) {schedule : List ι}
    (hs : Suffices script schedule) : (Workspace.run script number t schedule).IsComplete := by
  intro i
  have hturns := hs i
  have hleft := Workspace.left_run script number t schedule i
  have hr := (takes_run h schedule).reaches i
  cases hp : (Workspace.run script number t schedule).phase i with
  | waiting =>
    rw [hp, Script.left] at hleft
    omega
  | refused f =>
    rw [hp] at hr
    cases hr
  | staging x rest =>
    rw [hp, Script.left] at hleft
    omega
  | ended r => rfl

/-- Scripts that take turns in any order do not disturb each other.  They all end if there are turns enough,
and then the tree is the same whatever the order was. -/
theorem interleaved_scripts_undisturbed [DecidableEq ι] {number' : ι → Nat} (hw : t.WellFormed)
    (hl : t.NoLinks) (hs : Separate t script) (hf : Fresh t script number)
    (hf' : Fresh t script number') :
    (∀ schedule, Undisturbed t script number (Workspace.run script number t schedule)) ∧
      (∀ schedule, Suffices script schedule →
        (Workspace.run script number t schedule).IsComplete) ∧
      ∀ schedule schedule', (Workspace.run script number t schedule).IsComplete →
        (Workspace.run script number' t schedule').IsComplete →
          ∀ q, (Workspace.run script number t schedule).tree.get? q =
            (Workspace.run script number' t schedule').tree.get? q := by
  have h : Apart t script number := ⟨hw, hl, hs, hf⟩
  have h' : Apart t script number' := ⟨hw, hl, hs, hf'⟩
  refine ⟨fun schedule => (takes_run h schedule).undisturbed h, fun schedule => isComplete_run h,
    fun schedule schedule' hc hc' q => ?_⟩
  exact (takes_run h schedule).get?_congr (takes_run h' schedule') h h' hc hc' q

end Together

/-! ### Two scripts that take turns -/

namespace Turns

def d : Bytes := Path.ofText ['d']

def k : Bytes := Path.ofText ['k']

def o : Bytes := Path.ofText ['o']

def before : FileTree := ((FileTree.mk ∅ [] 0).put [d] .dir).put [d, o] (.file (Utf8.encode "old".toList))

def script : Bool → Script
  | true => ⟨Path.ofText "d/o".toList, [(Path.ofText "a/../b/x".toList, "new".toList)], true⟩
  | false => ⟨Path.ofText "e/k".toList, [(Path.ofText "x".toList, "lost".toList)], false⟩

def number (i : Bool) : Nat := if i then 0 else 1

def other (i : Bool) : Nat := if i then 0xABCDE else 7

def schedule : List Bool := [true, false, false, true, false, true]

theorem wellFormed_before : before.WellFormed := by
  refine .put (d := [d]) (.put (d := []) (.empty 0) rfl ?_ ?_) ?_ ?_ ?_
  all_goals decide +kernel

theorem noLinks_before : before.NoLinks :=
  .put (.put (noLinks_empty 0) (by simp) (by simp)) (by simp) (by simp)

theorem separate : Separate before script where
  isSound i := by
    refine ⟨⟨?_, ?_, ?_, ?_⟩, ?_, fun hs => absurd hs ?_, ?_⟩ <;> revert i <;> decide +kernel
  apart {i j} := by
    revert i j
    decide +kernel

theorem fresh : Fresh before script number where
  length := by decide +kernel
  distinct {i j} := by
    revert i j
    decide +kernel
  unused := by decide +kernel
  free := by decide +kernel
  opens i := exists_of_toOption (by revert i; decide +kernel)

theorem fresh_other : Fresh before script other where
  length := by decide +kernel
  distinct {i j} := by
    revert i j
    decide +kernel
  unused := by decide +kernel
  free := by decide +kernel
  opens i := exists_of_toOption (by revert i; decide +kernel)

end Turns

open Turns

theorem interleaved_scripts_undisturbed_two :
    let turns := Workspace.run script number before schedule
    let inOrder := Workspace.run script other before [true, true, true, false, false, false]
    before.WellFormed ∧ before.NoLinks ∧ Separate before script ∧ Fresh before script number ∧
      Fresh before script other ∧ Suffices script schedule ∧ turns.IsComplete ∧ inOrder.IsComplete ∧
      Undisturbed before script number turns ∧ (∀ q, turns.tree.get? q = inOrder.tree.get? q) ∧
      turns.tree.read (Path.ofText "d/o/b/x".toList) = .ok (Utf8.encode "new".toList) := by
  intro turns inOrder
  obtain ⟨hundisturbed, hcomplete, hsame⟩ :=
    interleaved_scripts_undisturbed wellFormed_before noLinks_before separate fresh fresh_other
  have hsuffices : Suffices script schedule := fun i => by revert i; decide +kernel
  have hinOrder : inOrder.IsComplete := fun i => by revert i; decide +kernel
  have hturns := hcomplete schedule hsuffices
  exact ⟨wellFormed_before, noLinks_before, separate, fresh, fresh_other, hsuffices, hturns, hinOrder,
    hundisturbed schedule, hsame _ _ hturns hinOrder, by decide +kernel⟩

/-! ### Targets that nothing can be published at -/

namespace Refused

def before : FileTree := (FileTree.mk ∅ [] 0).put [d] (.file (Utf8.encode "old".toList))

/-- Four targets that the system does not take, and a file with a slash after it. -/
def targets : List Path :=
  [[], List.replicate 256 0x6E, d ++ [0], k ++ List.replicate 4095 Path.slash, d ++ [Path.slash]]

def publishAt (target : Path) (schedule : List Unit) : Workspace Unit :=
  Workspace.run (fun _ => ⟨target, [], true⟩) (fun _ => 0) Refused.before schedule

def hasFailed : Phase → Bool
  | .ended (.error _) => true
  | _ => false

theorem exists_of_hasFailed {phase : Phase} (h : hasFailed phase = true) :
    ∃ f, phase = .ended (.error f) := by
  cases phase with
  | ended r =>
    cases r with
    | error f => exact ⟨f, rfl⟩
    | ok => cases h
  | _ => cases h

end Refused

open Refused

/-- A stage is opened beside each of the `targets`, which are all relative and without dots, but it cannot
be published. -/
theorem publish_fails_at_refused_targets :
    Refused.before.WellFormed ∧ Refused.before.NoLinks ∧ ∀ target ∈ targets,
      target.isAbsolute = false ∧ Path.dot ∉ target.names ∧ Path.dotDot ∉ target.names ∧
        (∃ x, (prepare Refused.before target).1 = .ok x) ∧
        ∃ f, (publishAt target [(), ()]).phase () = .ended (.error f) := by
  have hplain : ∀ target ∈ targets, target.isAbsolute = false ∧ Path.dot ∉ target.names ∧
      Path.dotDot ∉ target.names := by
    decide +kernel
  have hopens : ∀ target ∈ targets, (prepare Refused.before target).1.toOption.isSome = true := by
    decide +kernel
  have hfails : ∀ target ∈ targets, hasFailed ((publishAt target [(), ()]).phase ()) = true := by
    decide +kernel
  refine ⟨.put (d := []) (.empty 0) rfl (by decide +kernel) (by decide +kernel),
    .put (noLinks_empty 0) (by simp) (by simp), fun target ht => ?_⟩
  obtain ⟨habs, hdot, hdotDot⟩ := hplain target ht
  exact ⟨habs, hdot, hdotDot, exists_of_toOption (hopens target ht),
    exists_of_hasFailed (hfails target ht)⟩

end Stage
end EnvTemplate
