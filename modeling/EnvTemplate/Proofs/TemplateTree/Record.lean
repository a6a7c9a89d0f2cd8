import EnvTemplate.Proofs.TemplateTree.Render

/-! The record of a walk.  It lists the templates that are rendered, each with the world that it is rendered
in; what a walk counts, reads and expands can be told from it. -/
namespace EnvTemplate
namespace TemplateTree

open Stage

variable {σ : Type} [VariableStore σ]

/-- The templates that a walk renders, with the worlds that they are rendered in.  The last one may fail. -/
def walkRecord (rule : UnsetRule) (stage : Path) : Nat → List Found → World σ → List (Found × World σ)
  | 0, _, _ => []
  | _, [], _ => []
  | n + 1, f :: rest, w =>
    match f.entry with
    | .dir =>
      let (found, notes) := listed w.tree f.path f.relative
      walkRecord rule stage n (found ++ rest) { w with journal := w.journal ++ notes }
    | .link _ => walkRecord rule stage n rest w
    | .file _ =>
      if isTemplate f.name then
        (f, w) ::
          match renderFile rule stage f w with
          | (.ok (), w) => walkRecord rule stage n rest w
          | (.error _, _) => []
      else walkRecord rule stage n rest w

def record (rule : UnsetRule) (templates out : Path) (w : World σ) : List (Found × World σ) :=
  if !w.tree.isDir templates then []
  else
    match prepare w.tree out with
    | (.error _, _) => []
    | (.ok x, tree) =>
      let (found, notes) := listed tree templates []
      walkRecord rule x.path (bound tree) found { w with tree, journal := w.journal ++ notes }

variable {rule : UnsetRule} {stage : Path} {n : Nat} {f : Found} {rest : List Found} {w w' : World σ}

theorem walkRecord_dir (h : f.entry = .dir) :
    walkRecord rule stage (n + 1) (f :: rest) w =
      walkRecord rule stage n ((listed w.tree f.path f.relative).1 ++ rest)
        { w with journal := w.journal ++ (listed w.tree f.path f.relative).2 } := by
  simp only [walkRecord, h]

theorem walkRecord_pass (hd : f.entry ≠ .dir)
    (h : ∀ content, f.entry = .file content → isTemplate f.name = false) :
    walkRecord rule stage (n + 1) (f :: rest) w = walkRecord rule stage n rest w := by
  cases he : f.entry with
  | dir => exact absurd he hd
  | link p => simp only [walkRecord, he]
  | file content => simp [walkRecord, he, h content he]

theorem walkRecord_of_ok {content : Bytes} (he : f.entry = .file content)
    (ht : isTemplate f.name = true) (hr : renderFile rule stage f w = (.ok (), w')) :
    walkRecord rule stage (n + 1) (f :: rest) w = (f, w) :: walkRecord rule stage n rest w' := by
  simp only [walkRecord, he, ht, hr, if_true]

theorem walkRecord_of_error {content : Bytes} {failure : Failure} (he : f.entry = .file content)
    (ht : isTemplate f.name = true) (hr : renderFile rule stage f w = (.error failure, w')) :
    walkRecord rule stage (n + 1) (f :: rest) w = [(f, w)] := by
  simp only [walkRecord, he, ht, hr, if_true]

/-- Templates are rendered one after another, up to one that fails.  Between them there are notes at most. -/
inductive Renders (rule : UnsetRule) (stage : Path) :
    World σ → List (Found × World σ) → Except Failure Unit → World σ → Prop
  | nil (w : World σ) : Renders rule stage w [] (.ok ()) w
  | note {w last : World σ} {l : List (Found × World σ)} {r : Except Failure Unit} (notes : Journal)
      (h : Renders rule stage { w with journal := w.journal ++ notes } l r last) :
      Renders rule stage w l r last
  | ok {f : Found} {w w' last : World σ} {l : List (Found × World σ)} {r : Except Failure Unit}
      (hr : renderFile rule stage f w = (.ok (), w')) (h : Renders rule stage w' l r last) :
      Renders rule stage w ((f, w) :: l) r last
  | error {f : Found} {w w' : World σ} {failure : Failure}
      (hr : renderFile rule stage f w = (.error failure, w')) :
      Renders rule stage w [(f, w)] (.error failure) w'

/-- A walk renders what is in its record, and counts it. -/
theorem renders_walk (rule : UnsetRule) (stage : Path) (n : Nat) (items : List Found) (count : Nat)
    (w : World σ) :
    ∃ r, Renders rule stage w (walkRecord rule stage n items w) r (walk rule stage n items count w).2 ∧
      (walk rule stage n items count w).1 =
        r.map fun _ => count + (walkRecord rule stage n items w).length := by
  induction n generalizing items count w with
  | zero =>
    rw [walkRecord, walk]
    exact ⟨_, .nil w, rfl⟩
  | succ n ih =>
    cases items with
    | nil =>
      simp only [walkRecord, walk]
      exact ⟨_, .nil w, rfl⟩
    | cons f rest =>
      rcases entry_cases f.entry f.name with hd | ⟨content, he, ht⟩ | ⟨hd, hno⟩
      · obtain ⟨r, hr, hcount⟩ := ih ((listed w.tree f.path f.relative).1 ++ rest) count
          { w with journal := w.journal ++ (listed w.tree f.path f.relative).2 }
        rw [walkRecord_dir hd, walk_dir hd]
        exact ⟨r, .note _ hr, hcount⟩
      · cases hr : renderFile rule stage f w with
        | mk result w' =>
          cases result with
          | error failure =>
            rw [walkRecord_of_error he ht hr, walk_of_error he ht hr]
            exact ⟨_, .error hr, rfl⟩
          | ok _ =>
            obtain ⟨r, hrest, hcount⟩ := ih rest (count + 1) w'
            rw [walkRecord_of_ok he ht hr, walk_of_ok he ht hr, hcount, List.length_cons]
            refine ⟨r, .ok hr hrest, ?_⟩
            rw [Nat.add_right_comm, Nat.add_assoc]
      · rw [walkRecord_pass hd hno, walk_pass hd hno]
        exact ih rest count w

section Opened

variable {templates out : Path} {x : Stage} {b : FileTree} (hd : w.tree.isDir templates = true)
  (hp : prepare w.tree out = (.ok x, b))
include hd hp

theorem record_eq : record rule templates out w =
    walkRecord rule x.path (bound b) (listed b templates []).1
      { w with tree := b, journal := w.journal ++ (listed b templates []).2 } := by
  simp only [record, hd, hp, Bool.not_true, Bool.false_eq_true, if_false]

theorem renders_record (rule : UnsetRule) :
    ∃ r last, Renders rule x.path
        { w with tree := b, journal := w.journal ++ (listed b templates []).2 }
        (record rule templates out w) r last ∧
      (render rule templates out w).2.store = last.store ∧
      ∀ k, (render rule templates out w).1 = .ok k → k = (record rule templates out w).length := by
  obtain ⟨r, hrun, hr⟩ := renders_walk rule x.path (bound b) (listed b templates []).1 0
    { w with tree := b, journal := w.journal ++ (listed b templates []).2 }
  rw [← record_eq hd hp] at hrun hr
  cases hwalk : walk rule x.path (bound b) (listed b templates []).1 0
      { w with tree := b, journal := w.journal ++ (listed b templates []).2 } with
  | mk result last =>
    rw [hwalk] at hrun hr
    refine ⟨r, last, hrun, ?_⟩
    cases result with
    | error failure =>
      rw [render_of_walk_error hd hp hwalk]
      exact ⟨rfl, nofun⟩
    | ok count =>
      obtain ⟨hstore, -, hend⟩ := render_of_walk_ok hd hp hwalk
      refine ⟨hstore, fun k hk => ?_⟩
      rcases hend with ⟨failure, hf⟩ | ⟨-, hok⟩
      · rw [hf] at hk
        cases hk
      obtain rfl := Except.ok.inj (hk.symm.trans hok)
      cases r with
      | error failure => cases hr
      | ok _ => exact (Except.ok.inj hr).trans (Nat.zero_add _)

end Opened

end TemplateTree
end EnvTemplate
