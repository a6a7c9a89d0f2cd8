import Mathlib.Data.List.Induction
import EnvTemplate.Proofs.Stage.Closing
import EnvTemplate.Proofs.Stage.Writing

/-! Stages in use at the same time.  Each of some scripts opens a stage beside a target of its own, writes
files into it, and then publishes or discards it; a schedule says whose turn it is.  The places that the
scripts are about have nothing to do with each other. -/
namespace EnvTemplate
namespace Stage

open FileTree

/-- What is done with one stage. -/
structure Script where
  target : Path
  writes : List (Path × Text)
  /-- Whether the stage is published in the end, and not discarded. -/
  commits : Bool

inductive Phase
  | waiting
  | refused (f : Failure)
  | staging (x : Stage) (rest : List (Path × Text))
  | ended (result : Except Failure Unit)

def Phase.isEnded : Phase → Bool
  | .ended _ => true
  | _ => false

theorem Phase.exists_of_isEnded {phase : Phase} (h : phase.isEnded = true) : ∃ r, phase = .ended r := by
  cases phase with
  | ended r => exact ⟨r, rfl⟩
  | _ => cases h

/-- Takes the next step of a script.  A new stage gets the name of a number. -/
def Script.advance (c : Script) (number : Nat) : Phase → FileTree → Phase × FileTree
  | .waiting, t =>
    match prepare { t with nextName := number } c.target with
    | (.error f, t) => (.refused f, t)
    | (.ok x, t) => (.staging x c.writes, t)
  | .staging x ((p, text) :: rest), t => (.staging x rest, (x.write t p text).2)
  | .staging x [], t =>
    if c.commits then
      let (r, t) := x.publish t
      (.ended r, t)
    else (.ended (.ok ()), x.discard t)
  | phase, t => (phase, t)

/-- A tree that scripts work in. -/
structure Workspace (ι : Type) where
  tree : FileTree
  phase : ι → Phase

namespace Workspace

variable {ι : Type} [DecidableEq ι]

def step (script : ι → Script) (number : ι → Nat) (s : Workspace ι) (i : ι) : Workspace ι :=
  let (phase, tree) := (script i).advance (number i) (s.phase i) s.tree
  ⟨tree, fun j => if j = i then phase else s.phase j⟩

def run (script : ι → Script) (number : ι → Nat) (t : FileTree) (schedule : List ι) : Workspace ι :=
  schedule.foldl (step script number) ⟨t, fun _ => .waiting⟩

def IsComplete (s : Workspace ι) : Prop := ∀ i, (s.phase i).isEnded = true

end Workspace

/-- A schedule that has all the turns that the scripts take: one to begin, one for each write and one to
end. -/
def Suffices {ι : Type} [DecidableEq ι] (script : ι → Script) (schedule : List ι) : Prop :=
  ∀ i, (script i).writes.length + 2 ≤ schedule.count i

def Script.left (c : Script) : Phase → Nat
  | .waiting => c.writes.length + 2
  | .staging _ rest => rest.length + 1
  | .refused _ | .ended _ => 0

theorem Script.left_advance (c : Script) (n : Nat) (phase : Phase) (t : FileTree) :
    c.left (c.advance n phase t).1 ≤ c.left phase - 1 := by
  cases phase with
  | waiting =>
    simp only [advance]
    split
    · exact Nat.zero_le _
    · exact Nat.le_refl _
  | staging x rest =>
    cases rest with
    | cons w rest => exact Nat.le_refl _
    | nil =>
      cases hc : c.commits with
      | true =>
        simp only [advance, hc, if_true]
        exact Nat.zero_le _
      | false =>
        simp only [advance, hc, Bool.false_eq_true, if_false]
        exact Nat.zero_le _
  | refused => exact Nat.le_refl _
  | ended => exact Nat.le_refl _

/-- Each turn of a script is one step less, and the turns of the others do not count. -/
theorem Workspace.left_run {ι : Type} [DecidableEq ι] (script : ι → Script) (number : ι → Nat)
    (t : FileTree) (schedule : List ι) (i : ι) :
    (script i).left ((run script number t schedule).phase i) ≤
      (script i).writes.length + 2 - schedule.count i := by
  have hsteps : ∀ s : Workspace ι, (script i).left ((schedule.foldl (step script number) s).phase i) ≤
      (script i).left (s.phase i) - schedule.count i := by
    induction schedule with
    | nil => exact fun s => Nat.le_refl _
    | cons j schedule ih =>
      intro s
      have hrest := ih (s.step script number j)
      rw [List.foldl_cons]
      by_cases hj : j = i
      · subst hj
        have hphase : (s.step script number j).phase j =
            ((script j).advance (number j) (s.phase j) s.tree).1 := if_pos rfl
        have hone := (script j).left_advance (number j) (s.phase j) s.tree
        rw [hphase] at hrest
        rw [List.count_cons_self]
        omega
      · have hphase : (s.step script number j).phase i = s.phase i := if_neg (Ne.symm hj)
        rw [hphase] at hrest
        rwa [List.count_cons_of_ne hj]
  exact hsteps _

def Script.stage (c : Script) (cwd : Loc) (n : Nat) : Stage := ⟨pathFor cwd c.target n, c.target⟩

def Script.alone (c : Script) (t : FileTree) (number : Nat) (writes : List (Path × Text)) : FileTree :=
  match prepare { t with nextName := number } c.target with
  | (.ok x, u) => writes.foldl (fun u w => (x.write u w.1 w.2).2) u
  | (.error _, u) => u

/-- A script for a plain target, whose writes stay in the stage. -/
structure Script.IsSound (c : Script) (t : FileTree) : Prop where
  isPlain : IsPlain c.target
  ne_nil : c.target ≠ []
  /-- A slash at the end of the target is not put after a file. -/
  slash : c.target.endsWithSlash = true → ∀ e, t.get? (targetLoc t.cwd c.target) = some e → e = .dir
  stays : ∀ w ∈ c.writes, w.1.isAbsolute = false ∧ Path.stays 0 w.1.names = true

/-- Scripts for targets of which none is in another one. -/
structure Separate {ι : Type} (t : FileTree) (script : ι → Script) : Prop where
  isSound (i : ι) : (script i).IsSound t
  apart {i j : ι} (h : i ≠ j) : ¬(script i).target.names <+: (script j).target.names

/-- Numbers that make up a new name of six digits for each stage, which is in no target.  Then each stage
can be opened in the tree at the start. -/
structure Fresh {ι : Type} (t : FileTree) (script : ι → Script) (number : ι → Nat) : Prop where
  length (i : ι) : (madeUp nameStart (number i)).length = nameStart.length + 6
  distinct {i j : ι} (h : i ≠ j) : madeUp nameStart (number i) ≠ madeUp nameStart (number j)
  unused (i j : ι) : madeUp nameStart (number i) ∉ (script j).target.names
  free (i : ι) : t.get? (stageLoc t.cwd (script i).target (number i)) = none
  opens (i : ι) : ∃ x, (prepare { t with nextName := number i } (script i).target).1 = .ok x

/-! ### A script alone -/

section Alone

variable {t : FileTree} {c : Script} {n n' : Nat}

theorem Opened.get?_append {u : FileTree} {target : Path} (h : Opened t target n u) (hw : t.WellFormed)
    (hfree : t.get? (stageLoc t.cwd target n) = none) (p : Loc) :
    u.get? (stageLoc t.cwd target n ++ p) = if p = [] then some .dir else none := by
  have hnot : ¬stageLoc t.cwd target n ++ p <+: parentLoc t.cwd target := fun hp =>
    not_stageLoc_isPrefix_parentLoc _ _ _ ((List.prefix_append _ p).trans hp)
  rw [h.get?]
  by_cases hp : p = []
  · subst hp
    simp
  · rw [if_neg, if_neg hp]
    · exact hw.get?_eq_none hp (by rw [hfree]; simp)
    · rintro (he | ⟨-, hpre⟩)
      · exact hp (by simpa using he)
      · exact hnot hpre

structure Script.CanBegin (c : Script) (t : FileTree) (n : Nat) : Prop where
  wellFormed : t.WellFormed
  noLinks : t.NoLinks
  isSound : c.IsSound t
  canOpen : CanOpen t c.target n

theorem Script.CanBegin.opened (h : c.CanBegin t n) :
    ∃ u, prepare { t with nextName := n } c.target = (.ok (c.stage t.cwd n), u) ∧
      Opened t c.target n u :=
  h.canOpen.opened h.wellFormed h.noLinks h.isSound.isPlain h.isSound.ne_nil

theorem Script.CanBegin.alone_concat (h : c.CanBegin t n) (writes : List (Path × Text)) (p : Path)
    (text : Text) :
    c.alone t n (writes ++ [(p, text)]) = ((c.stage t.cwd n).write (c.alone t n writes) p text).2 := by
  obtain ⟨u, hu, -⟩ := h.opened
  simp only [Script.alone, hu, List.foldl_append, List.foldl_cons, List.foldl_nil]

theorem length_join (base : Path) {a b : Path} (ha : a.isAbsolute = false) (hb : b.isAbsolute = false)
    (h : a.length = b.length) : (base.join a).length = (base.join b).length := by
  unfold Path.join
  rw [ha, hb, if_neg Bool.false_ne_true, if_neg Bool.false_ne_true]
  split
  · rw [List.length_append, List.length_append, h]
  · rw [List.length_append, List.length_append, List.length_cons, List.length_cons, h]

theorem length_pathFor (h : (madeUp nameStart n).length = (madeUp nameStart n').length) (cwd : Loc)
    (target : Path) : (pathFor cwd target n).length = (pathFor cwd target n').length :=
  length_join _ (isPiece_stageName n).isAbsolute (isPiece_stageName n').isAbsolute h

theorem Script.CanBegin.site_alone_nil (h : c.CanBegin t n) :
    Site (c.alone t n []) (pathFor t.cwd c.target n) (stageLoc t.cwd c.target n) := by
  obtain ⟨u, hu, ho⟩ := h.opened
  simp only [Script.alone, hu, List.foldl_nil]
  exact ho.site

theorem Script.CanBegin.get?_alone_nil (h : c.CanBegin t n) (p : Loc) :
    (c.alone t n []).get? (stageLoc t.cwd c.target n ++ p) = if p = [] then some .dir else none := by
  obtain ⟨u, hu, ho⟩ := h.opened
  simp only [Script.alone, hu, List.foldl_nil]
  exact ho.get?_append h.wellFormed h.canOpen.free p

theorem Script.CanBegin.twins (h : c.CanBegin t n) (h' : c.CanBegin t n')
    (hlen : (madeUp nameStart n).length = (madeUp nameStart n').length) (writes : List (Path × Text))
    (hwrites : ∀ w ∈ writes, w ∈ c.writes) :
    Twins (pathFor t.cwd c.target n) (pathFor t.cwd c.target n') (stageLoc t.cwd c.target n)
      (stageLoc t.cwd c.target n') (c.alone t n writes) (c.alone t n' writes) := by
  induction writes using List.reverseRecOn with
  | nil =>
    refine ⟨h.site_alone_nil, h'.site_alone_nil, length_pathFor hlen .., fun p => ?_⟩
    rw [h.get?_alone_nil, h'.get?_alone_nil]
  | append_singleton writes w ih =>
    obtain ⟨p, text⟩ := w
    obtain ⟨habs, hstays⟩ := h.isSound.stays _ (hwrites (p, text) (by simp))
    have hwrites' : ∀ w ∈ writes, w ∈ c.writes := fun w hw => hwrites w (List.mem_append_left _ hw)
    have htwins : Twins (c.stage t.cwd n).path (c.stage t.cwd n').path _ _ _ _ := ih hwrites'
    rw [h.alone_concat, h'.alone_concat]
    exact (htwins.stageWrite habs hstays text).twins

end Alone

/-! ### Places apart -/

section Apart

variable {ι : Type} {t : FileTree} {script : ι → Script} {number : ι → Nat} {i j : ι}

theorem targetLoc_eq {target : Path} (hp : IsPlain target) (hne : target ≠ []) (cwd : Loc) :
    ∃ m, IsName m ∧ targetLoc cwd target = parentLoc cwd target ++ [m] := by
  obtain ⟨ns, m, hn⟩ := (List.eq_nil_or_concat target.names).resolve_left
    (Path.names_ne_nil hne hp.isAbsolute)
  rw [List.concat_eq_append] at hn
  refine ⟨m, hp.isName m (by simp [hn]), ?_⟩
  rw [targetLoc, parentLoc, hn, List.dropLast_concat, List.append_assoc]

theorem parentLoc_isPrefix (cwd : Loc) (target : Path) : parentLoc cwd target <+: targetLoc cwd target :=
  (List.prefix_append_right_inj cwd).mpr (List.dropLast_prefix _)

/-- The places that a script is about: what is in its stage and what is at its target. -/
def Script.InArea (c : Script) (cwd : Loc) (n : Nat) (q : Loc) : Prop :=
  stageLoc cwd c.target n <+: q ∨ targetLoc cwd c.target <+: q

theorem Fresh.not_stageLoc_isPrefix (h : Fresh t script number) (i j : ι) (cwd : Loc) :
    ¬stageLoc cwd (script i).target (number i) <+: targetLoc cwd (script j).target := by
  intro hp
  rw [stageLoc, parentLoc, targetLoc, List.append_assoc] at hp
  exact h.unused i j (((List.prefix_append_right_inj cwd).mp hp).subset (by simp))

theorem Separate.not_targetLoc_isPrefix (h : Separate t script) (i j : ι) (cwd : Loc) :
    ¬targetLoc cwd (script i).target <+: parentLoc cwd (script j).target := by
  intro hp
  have hpre := hp.trans (parentLoc_isPrefix cwd (script j).target)
  rw [targetLoc, targetLoc, List.prefix_append_right_inj] at hpre
  by_cases hij : i = j
  · subst hij
    obtain ⟨m, -, hm⟩ := targetLoc_eq (h.isSound i).isPlain (h.isSound i).ne_nil cwd
    have hlen := hp.length_le
    rw [hm, List.length_append, List.length_singleton] at hlen
    omega
  · exact h.apart hij hpre

section

variable (hs : Separate t script) (hf : Fresh t script number)

include hs hf

theorem not_inArea_of_isPrefix {cwd q : Loc} (hq : q <+: parentLoc cwd (script j).target) :
    ¬(script i).InArea cwd (number i) q := by
  rintro (hp | hp)
  · exact hf.not_stageLoc_isPrefix i j cwd ((hp.trans hq).trans (parentLoc_isPrefix ..))
  · exact hs.not_targetLoc_isPrefix i j cwd (hp.trans hq)

theorem stage_apart_target {cwd q : Loc} (hp : stageLoc cwd (script i).target (number i) <+: q)
    (hq : targetLoc cwd (script j).target <+: q) : False := by
  rcases List.prefix_or_prefix_of_prefix hp hq with hpq | hpq
  · exact hf.not_stageLoc_isPrefix i j cwd hpq
  · rcases List.prefix_concat_iff.mp hpq with heq | hpq
    · exact hf.not_stageLoc_isPrefix i j cwd (heq ▸ List.prefix_refl _)
    · exact hs.not_targetLoc_isPrefix j i cwd hpq

theorem not_inArea_of_ne (hij : i ≠ j) {cwd q : Loc} (hq : (script j).InArea cwd (number j) q) :
    ¬(script i).InArea cwd (number i) q := by
  have hstage : ∀ {a b : ι}, a ≠ b → ¬stageLoc cwd (script a).target (number a) <+:
      stageLoc cwd (script b).target (number b) := by
    intro a b hab hp
    rcases List.prefix_concat_iff.mp hp with heq | hp
    · have hlast := (List.append_inj' heq rfl).2
      exact hf.distinct hab (List.cons.inj hlast).1
    · exact hf.not_stageLoc_isPrefix a b cwd (hp.trans (parentLoc_isPrefix ..))
  have hboth : ∀ {a b : ι}, a ≠ b → ¬targetLoc cwd (script a).target <+:
      targetLoc cwd (script b).target := fun hab hp => by
    rw [targetLoc, targetLoc, List.prefix_append_right_inj] at hp
    exact hs.apart hab hp
  rintro (hp | hp) <;> rcases hq with hq | hq
  · rcases List.prefix_or_prefix_of_prefix hp hq with hpq | hpq
    · exact hstage hij hpq
    · exact hstage hij.symm hpq
  · exact stage_apart_target hs hf hp hq
  · exact stage_apart_target hs hf hq hp
  · rcases List.prefix_or_prefix_of_prefix hp hq with hpq | hpq
    · exact hboth hij hpq
    · exact hboth hij.symm hpq

end

end Apart
end Stage
end EnvTemplate
