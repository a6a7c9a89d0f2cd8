import EnvTemplate.Proofs.TemplateTree.Walk

/-! How a rendering goes.  It cannot begin, and has made directories at most; or it opens a stage and walks
up to a template that cannot be rendered, and discards the stage; or it walks to the end and publishes. -/
namespace EnvTemplate
namespace TemplateTree

open FileTree Stage

variable {σ : Type} [VariableStore σ]

/-- A rendering has opened a stage and walked so far. -/
structure Walked (rule : UnsetRule) (templates out : Path) (w : World σ) (root : Loc) (x : Stage)
    (v : Way) (made : FileTree) (passed : List Loc) (done : List Rendered)
    (items : List (Loc × Entry)) (w' : World σ) : Prop where
  isDir : w.tree.status false templates = .ok (root, .dir)
  prepared : (prepare w.tree out).1 = .ok x
  opens : Opens w.tree out x v made (prepare w.tree out).2
  frontier : Frontier made v templates root w'.tree passed items
  output : Output rule made v templates root w.store passed done w'.tree w'.store

variable {rule : UnsetRule} {templates out : Path} {w : World σ}

theorem listed_start {t made b : FileTree} {x : Stage} {v : Way} {root : Loc}
    (hx : Opens t out x v made b) (hs : t.status false templates = .ok (root, .dir)) :
    (listed b templates []).1 = found templates (entriesIn b templates root []) := by
  have hroot := (hx.gains.toExtends.trans (hx.extends_of_holds hx.holds)).status hs
  obtain ⟨-, _, hlead⟩ := leads_of_status hroot
  have hdir := hlead.get?_eq_dir hx.holds.wellFormed (hx.holds.wellFormed.get?_origin templates)
  exact listed_fst [] hx.holds.wellFormed hroot (by rwa [List.append_nil])

section Opened

variable {x : Stage} {b : FileTree} (hd : w.tree.isDir templates = true)
  (hp : prepare w.tree out = (.ok x, b))
include hd hp

theorem render_of_walk_error {failure : Failure} {w' : World σ}
    (h : walk rule x.path (bound b) (listed b templates []).1 0
      { w with tree := b, journal := w.journal ++ (listed b templates []).2 } = (.error failure, w')) :
    render rule templates out w = (.error failure, { w' with tree := x.discard w'.tree }) := by
  simp only [render, hd, hp, h, Bool.not_true, Bool.false_eq_true, if_false]

theorem render_of_walk_ok {count : Nat} {w' : World σ}
    (h : walk rule x.path (bound b) (listed b templates []).1 0
      { w with tree := b, journal := w.journal ++ (listed b templates []).2 } = (.ok count, w')) :
    let r := render rule templates out w
    r.2.store = w'.store ∧ r.2.tree = (x.publish w'.tree).2 ∧
      ((∃ failure : Failure, r.1 = .error (failure.within "commit transaction".toList)) ∨
        (x.publish w'.tree).1 = .ok () ∧ r.1 = .ok count) := by
  intro r
  simp only [r, render, hd, hp, h, Bool.not_true, Bool.false_eq_true, if_false]
  cases hpub : x.publish w'.tree with
  | mk result tree =>
    cases result with
    | error failure => exact ⟨rfl, rfl, .inl ⟨failure, rfl⟩⟩
    | ok _ => exact ⟨rfl, rfl, .inr ⟨rfl, rfl⟩⟩

end Opened

/-- A rendering cannot begin, or a template cannot be rendered, or the stage is published. -/
theorem render_cases (hw : w.tree.WellFormed) (rule : UnsetRule) (templates out : Path) :
    let r := render rule templates out w
    ((∃ failure, r.1 = .error failure) ∧ r.2.store = w.store ∧ Gains out.beside w.tree r.2.tree ∧
        (w.tree.isDir templates = false ∧ r.2.tree = w.tree ∨
          ∃ failure, (prepare w.tree out).1 = .error failure)) ∨
      ∃ root x v made passed done items w',
        Walked rule templates out w root x v made passed done items w' ∧
          ((∃ rel content rest failure w'', items = (rel, .file content) :: rest ∧
              isTemplate (lastName rel) = true ∧
              renderFile rule x.path (Found.ofNames templates rel (.file content)) w' =
                (.error failure, w'') ∧
              r = (.error failure, { w'' with tree := x.discard w''.tree })) ∨
            (items = [] ∨ passed.length = bound (prepare w.tree out).2) ∧
              r.2.store = w'.store ∧ r.2.tree = (x.publish w'.tree).2 ∧
              ((∃ failure : Failure, r.1 = .error (failure.within "commit transaction".toList)) ∨
                (x.publish w'.tree).1 = .ok () ∧ r.1 = .ok done.length)) := by
  intro r
  cases hd : w.tree.isDir templates with
  | false =>
    have hr : r = (.error ⟨[], .noTemplates templates⟩, w) := by simp [r, render, hd]
    rw [hr]
    exact .inl ⟨⟨_, rfl⟩, rfl, .refl _ _, .inl ⟨rfl, rfl⟩⟩
  | true =>
    obtain ⟨root, hs⟩ := isDir_iff.mp hd
    have hcases := prepare_cases hw out
    cases hprep : prepare w.tree out with
    | mk opened b =>
    rw [hprep] at hcases
    rcases hcases with ⟨⟨failure, rfl⟩, hg⟩ | ⟨x, v, made, rfl, hx⟩
    · have hr : r = (.error (failure.within "begin transaction".toList), { w with tree := b }) := by
        simp [r, render, hd, hprep]
      rw [hr]
      exact .inl ⟨⟨_, rfl⟩, rfl, hg, .inr ⟨failure, rfl⟩⟩
    · right
      have hfound := listed_start hx hs
      let w₁ : World σ :=
        { w with tree := b, journal := w.journal ++ (listed b templates []).2 }
      obtain ⟨passed, done, items, w', hf, ho, hstop⟩ :=
        walk_stops (w := w₁) hx hs (bound b) (Frontier.start hx templates root)
          (Output.start hx rule templates root w.store)
      refine ⟨root, x, v, made, passed, done, items, w',
        ⟨hs, congrArg Prod.fst hprep, hprep ▸ hx, hf, ho⟩, ?_⟩
      rw [← hfound] at hstop
      simp only [List.length_nil, Nat.zero_add] at hstop
      rcases hstop with ⟨hwalk, hlen⟩ | ⟨rel, content, rest, failure, hi, ht, herr, hrender⟩
      · exact .inr ⟨hlen, render_of_walk_ok hd hprep hwalk⟩
      · exact .inl ⟨rel, content, rest, failure, _, hi, ht, hrender,
          render_of_walk_error hd hprep (Prod.ext herr rfl)⟩

theorem get?_of_made {t made b : FileTree} {out : Path} {x : Stage} {v : Way}
    (hx : Opens t out x v made b) {q : Loc} {content : Bytes}
    (h : made.get? q = some (.file content)) : t.get? q = some (.file content) := by
  rcases hx.gains.get? q with he | ⟨-, hd, -⟩
  · exact he ▸ h
  · simp [hd] at h

end TemplateTree
end EnvTemplate
