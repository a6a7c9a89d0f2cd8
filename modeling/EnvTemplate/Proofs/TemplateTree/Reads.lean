import Mathlib.Data.List.Induction
import EnvTemplate.Proofs.TemplateTree.PublishedRender
import EnvTemplate.Proofs.TemplateTree.Record

/-! What a rendering reads.  A directory is listed when the walk comes to it, so a rendering whose stage is
among the templates may come to its own output.  It does not where no template before the stage has a
template for its output: then every file that it reads is as it was in the beginning, and what is published
comes from such files. -/
namespace EnvTemplate

theorem Loc.before_or (a b : Loc) : Before a b ∨ a = b ∨ Before b a := by
  cases h : compare a b with
  | lt => exact .inl h
  | eq => exact .inr (.inl (Std.LawfulEqCmp.eq_of_compare h))
  | gt => exact .inr (.inr (Std.OrientedCmp.lt_of_gt h))

namespace TemplateTree

open FileTree Stage

section Reads

variable {σ : Type} [VariableStore σ]

/-- The templates that a rendering reads, each with the tree that it is read in. -/
def renderReads (rule : UnsetRule) (templates out : Path) (w : World σ) : List (Found × FileTree) :=
  (record rule templates out w).map fun step => (step.1, step.2.tree)

variable {rule : UnsetRule} {w : World σ}

/-! ### Where no output is read -/

/-- Where the stage is among the templates, no template that comes before it has a template for its
output. -/
def Quiet (t : FileTree) (templates out : Path) : Prop :=
  ∀ root x above, t.status false templates = .ok (root, .dir) → (prepare t out).1 = .ok x →
    (prepare t out).2.status true x.path = .ok (root ++ above, .dir) →
    ∀ i ∈ templatesIn t templates root, Loc.Before i.1 above →
      isTemplate (outputName (lastName i.1)) = false

structure IsOriginal (t : FileTree) (templates : Path) (root : Loc) (f : Found) (u : FileTree) :
    Prop where
  template : ∃ rel content, (rel, content) ∈ templatesIn t templates root ∧
    f = Found.ofNames templates rel (.file content)
  same {loc : Loc} {e : Entry} (h : u.status false f.path = .ok (loc, e)) :
    t.status false f.path = .ok (loc, e)

section Original

variable {templates out : Path} {t made u : FileTree} {x : Stage} {v : Way} {root rel : Loc}
  {s₀ s : σ} {passed : List Loc} {done earlier : List Rendered} {items : List (Loc × Entry)}
  {content : Bytes}

/-- The output of a template that comes before the stage is not read. -/
theorem Quiet.ne_output (hq : Quiet t templates out) (hp : (prepare t out).1 = .ok x)
    (hx : Opens t out x v made (prepare t out).2) (hs : t.status false templates = .ok (root, .dir))
    {d : Loc} (hd : (d, content) ∈ templatesIn t templates root) (hout : ¬v.loc <+: root ++ d)
    (hb : Loc.Before d rel) (ht : isTemplate (lastName rel) = true) :
    root ++ rel ≠ v.loc ++ outputLoc d := by
  intro heq
  have hpre : v.loc <+: root ++ rel := heq ▸ List.prefix_append _ _
  rcases List.prefix_or_prefix_of_prefix hpre (List.prefix_append root rel) with hv | ⟨above, hv⟩
  · exact hout (hv.trans (List.prefix_append root d))
  rw [← hv, List.append_assoc, List.append_cancel_left_eq] at heq
  have haside : ¬above <+: d := fun hp => hout (hv ▸ (List.prefix_append_right_inj root).mpr hp)
  have hbefore : Loc.Before d above := by
    rcases Loc.before_or d above with h | rfl | h
    · exact h
    · exact absurd (List.prefix_refl _) haside
    · have hafter := h.append_left haside (outputLoc d)
      rw [← heq] at hafter
      exact absurd (hb.trans hafter) (Loc.Before.irrefl d)
  have hstage : (prepare t out).2.status true x.path = .ok (root ++ above, .dir) := by
    rw [hv]
    exact ((hx.goes_of_holds hx.holds).status_eq_ok_iff (by simp [hx.slash])).mpr
      ⟨rfl, hx.isName.length, hx.holds.stage, fun _ => rfl⟩
  have hname := hq root x above hs hp hstage (d, content) hd hbefore
  rw [heq, outputLoc, ← List.append_assoc, lastName_concat, hname] at ht
  cases ht

section

variable (hq : Quiet t templates out) (hp : (prepare t out).1 = .ok x)
  (hx : Opens t out x v made (prepare t out).2) (hs : t.status false templates = .ok (root, .dir))
include hq hp hx hs

theorem get?_of_isSource (hsource : IsSource made v root earlier rel content)
    (ht : isTemplate (lastName rel) = true)
    (hearlier : ∀ d ∈ earlier, (∃ c, made.get? (root ++ d.loc) = some (.file c) ∧
      (d.loc, c) ∈ templatesIn t templates root) ∧ Loc.Before d.loc rel) :
    made.get? (root ++ rel) = some (.file content) := by
  rcases hsource with he | ⟨d, hd, hloc, -⟩
  · exact he
  obtain ⟨⟨c, hc, hmem⟩, hb⟩ := hearlier d hd
  have hout : ¬v.loc <+: root ++ d.loc := fun hpre => by
    rw [hx.get?_made_eq_none hpre] at hc
    cases hc
  exact absurd hloc (hq.ne_output hp hx hs hmem hout hb ht)

/-- What was rendered so far is from templates that were there before. -/
theorem originals (hf : Frontier made v templates root u passed items)
    (ho : Output rule made v templates root s₀ passed done u s) : ∀ d ∈ done,
    ∃ content, made.get? (root ++ d.loc) = some (.file content) ∧
      (d.loc, content) ∈ templatesIn t templates root ∧
      source? templates d.loc content = some d.source := by
  have hsorted := (List.pairwise_append.mp hf.sorted).1.sublist ho.inOrder
  -- One template after another: what it says was there if that holds of the templates before it.
  have hupTo : ∀ earlier later, done = earlier ++ later → ∀ d ∈ earlier,
      ∃ content, made.get? (root ++ d.loc) = some (.file content) ∧
        (d.loc, content) ∈ templatesIn t templates root ∧
        source? templates d.loc content = some d.source := by
    intro earlier
    induction earlier using List.reverseRecOn with
    | nil => simp
    | append_singleton earlier d ih =>
      intro later heq d' hd'
      rw [List.append_assoc, List.singleton_append] at heq
      have hearlier := ih (d :: later) heq
      rcases List.mem_append.mp hd' with hd' | hd'
      · exact hearlier d' hd'
      obtain rfl := List.mem_singleton.mp hd'
      have hmem : d' ∈ done := by simp [heq]
      obtain ⟨content, hsource, htext⟩ := ho.source heq
      rw [heq, List.map_append, List.map_cons] at hsorted
      have hbefore := (List.pairwise_append.mp hsorted).2.2
      have he := get?_of_isSource hq hp hx hs hsource (ho.template hmem) fun e he => by
        obtain ⟨c, hc, hct, -⟩ := hearlier e he
        exact ⟨⟨c, hc, hct⟩, hbefore e.loc (List.mem_map_of_mem he) d'.loc List.mem_cons_self⟩
      exact ⟨content, he, mem_templatesIn_of_made hx hf ho hmem he, htext⟩
  exact fun d hd => hupTo done [] (by simp) d hd

theorem get?_next (hf : Frontier made v templates root u passed ((rel, .file content) :: items))
    (ho : Output rule made v templates root s₀ passed done u s)
    (ht : isTemplate (lastName rel) = true) : t.get? (root ++ rel) = some (.file content) := by
  refine get?_of_made hx (get?_of_isSource hq hp hx hs (ho.isSource (hf.here List.mem_cons_self)) ht
    fun d hd => ?_)
  obtain ⟨c, hc, hct, -⟩ := originals hq hp hx hs hf ho d hd
  have hpassed := ho.inOrder.subset (List.mem_map_of_mem hd)
  exact ⟨⟨c, hc, hct⟩, (List.pairwise_append.mp hf.sorted).2.2 d.loc hpassed rel List.mem_cons_self⟩

theorem isOriginal_next (hw : t.WellFormed)
    (hf : Frontier made v templates root u passed ((rel, .file content) :: items))
    (ho : Output rule made v templates root s₀ passed done u s)
    (ht : isTemplate (lastName rel) = true) :
    IsOriginal t templates root (Found.ofNames templates rel (.file content)) u := by
  have hext := hx.gains.toExtends.trans (hx.extends_of_holds ho.holds)
  have he := get?_next hq hp hx hs hf ho ht
  have hmem := mem_templatesIn.mpr ⟨he, ht, hf.listable List.mem_cons_self⟩
  refine ⟨⟨rel, content, hmem, rfl⟩, fun {loc e} h => ?_⟩
  by_cases hl : (templates.extend rel).length ≤ maxPath
  · have hu := status_extend ho.holds.wellFormed (hext.status hs) (hf.here List.mem_cons_self)
      (by simp) hl
    rw [show u.status false (templates.extend rel) = .ok (loc, e) from h] at hu
    rw [hu]
    exact status_extend hw hs he (by simp) hl
  · obtain ⟨err, herr⟩ := status_of_too_long (t := u) (Nat.not_le.mp hl) false
    rw [show u.status false (templates.extend rel) = .ok (loc, e) from h] at herr
    cases herr

theorem isOriginal_of_mem_walkRecord (hw : t.WellFormed) (n : Nat)
    (hf : Frontier made v templates root w.tree passed items)
    (ho : Output rule made v templates root s₀ passed done w.tree w.store) :
    ∀ step ∈ walkRecord rule x.path n (found templates items) w,
      IsOriginal t templates root step.1 step.2.tree := by
  induction n generalizing passed done items w with
  | zero => simp [walkRecord]
  | succ n ih =>
    cases items with
    | nil => simp [walkRecord, found]
    | cons i items =>
      obtain ⟨rel, e⟩ := i
      have hcons : found templates ((rel, e) :: items) =
          Found.ofNames templates rel e :: found templates items := rfl
      rw [hcons]
      rcases entry_cases e (lastName rel) with rfl | ⟨content, rfl, ht⟩ | ⟨hd, hno⟩
      · obtain ⟨hitems, hf', ho'⟩ := advance_dir hx hs hf ho
        rw [walkRecord_dir rfl, ← hitems]
        exact ih hf' ho'
      · have hnext := isOriginal_next hq hp hx hs hw hf ho ht
        cases hr : renderFile rule x.path (Found.ofNames templates rel (.file content)) w with
        | mk r w' =>
          cases r with
          | error failure =>
            rw [walkRecord_of_error rfl ht hr]
            simpa using hnext
          | ok _ =>
            obtain ⟨d, hf', ho'⟩ := advance_template hx hs ht hr hf ho
            rw [walkRecord_of_ok rfl ht hr]
            exact List.forall_mem_cons.mpr ⟨hnext, ih hf' ho'⟩
      · obtain ⟨hf', ho'⟩ := advance_pass hx hd hno hf ho
        rw [walkRecord_pass hd hno]
        exact ih hf' ho'

end
end Original

variable {templates out : Path}

theorem isOriginal_of_mem_renderReads (hw : w.tree.WellFormed) (hq : Quiet w.tree templates out) :
    ∀ r ∈ renderReads rule templates out w, ∃ root,
      w.tree.status false templates = .ok (root, .dir) ∧
        IsOriginal w.tree templates root r.1 r.2 := by
  intro r hr
  obtain ⟨step, hstep, rfl⟩ := List.mem_map.mp hr
  cases hd : w.tree.isDir templates with
  | false => simp [record, hd] at hstep
  | true =>
    obtain ⟨root, hs⟩ := isDir_iff.mp hd
    have hcases := prepare_cases hw out
    cases hp : prepare w.tree out with
    | mk opened b =>
      rw [hp] at hcases
      rcases hcases with ⟨⟨failure, rfl⟩, -⟩ | ⟨x, v, made, rfl, hx⟩
      · simp [record, hd, hp] at hstep
      · rw [record_eq hd hp, listed_start hx hs] at hstep
        have hopens : Opens w.tree out x v made (prepare w.tree out).2 := hp ▸ hx
        exact ⟨root, hs, isOriginal_of_mem_walkRecord hq (congrArg Prod.fst hp) hopens hs hw _
          (Frontier.start hx templates root) (Output.start hx rule templates root w.store) step hstep⟩

/-- What stands at the output is what templates came to that were there in the beginning. -/
structure PublishesOriginals (rule : UnsetRule) (templates out : Path) (w : World σ) (root : Loc)
    (done : List Rendered) (loc : Loc) (w' : World σ) : Prop where
  isDir : w.tree.status false templates = .ok (root, .dir)
  originals {d : Rendered} (h : d ∈ done) : ∃ content,
    (d.loc, content) ∈ templatesIn w.tree templates root ∧ Utf8.decode? content = some d.source
  expanded : expandEach rule (done.map Rendered.source) w.store =
    (.ok (done.map Rendered.output), w'.store)
  target : w'.tree.status true out = .ok (loc, .dir)
  files {path : Loc} (h : path ≠ []) (e : Entry) :
    w'.tree.get? (loc ++ path) = some e ↔ IsOutput done path e

/-- A rendering reads templates only that were there in the beginning, and publishes what these come to,
where no template before the stage has a template for its output. -/
theorem render_reads_originals (hw : w.tree.WellFormed) (hq : Quiet w.tree templates out) :
    (∀ r ∈ renderReads rule templates out w, ∃ root,
      w.tree.status false templates = .ok (root, .dir) ∧
        IsOriginal w.tree templates root r.1 r.2) ∧
      ∀ n, (render rule templates out w).1 = .ok n →
        n = (renderReads rule templates out w).length ∧ ∃ root done loc, n = done.length ∧
          PublishesOriginals rule templates out w root done loc (render rule templates out w).2 := by
  refine ⟨isOriginal_of_mem_renderReads hw hq, fun n h => ?_⟩
  rcases render_cases hw rule templates out with
    ⟨⟨f, hf⟩, -⟩ | ⟨root, x, v, made, passed, done, items, u, hwalk, hend⟩
  · rw [hf] at h
    cases h
  rcases hend with ⟨rel, content, rest, f, u', rfl, ht, hr, hrender⟩ |
    ⟨-, hstore, htree, ⟨f, hf⟩ | ⟨hpub, hok⟩⟩
  · rw [hrender] at h
    cases h
  · rw [hf] at h
    cases h
  obtain ⟨loc, htarget, hfiles, -⟩ := hwalk.published hpub
  obtain ⟨hs, hp, hx, hfront, hout⟩ := hwalk
  obtain ⟨-, -, -, -, hcount⟩ := renders_record (isDir_iff.mpr ⟨root, hs⟩) (Prod.ext hp rfl) rule
  refine ⟨(hcount n h).trans (List.length_map _).symm, root, done, loc, Except.ok.inj (h.symm.trans hok), ?_⟩
  exact
    { isDir := hs
      originals := fun {d} hd => by
        obtain ⟨content, -, hmem, hsource⟩ := originals hq hp hx hs hfront hout d hd
        exact ⟨content, hmem, decode?_of_source? hsource⟩
      expanded := hstore ▸ hout.expanded
      target := htree ▸ htarget
      files := fun {path} hne e => htree ▸ hfiles path hne e }

end Reads

/-! ### A stage among the templates -/

namespace InnerOutput

def t : Bytes := Path.ofText ['t']

def out : Path := Path.ofText "t/o".toList

def early : Bytes := Path.ofText "!.tpl".toList

def late : Bytes := Path.ofText "b.tpl.tpl".toList

def twice : Bytes := Path.ofText "!.tpl.tpl".toList

def fresh : Bytes := Path.ofText ".stage.000000".toList

def root : FileTree := (FileTree.mk ∅ [] 0).put [t] .dir

def before : FileTree :=
  (root.put [t, early] (.file (Utf8.encode ['a']))).put [t, late] (.file (Utf8.encode ['b']))

def noisy : FileTree := root.put [t, twice] (.file (Utf8.encode ['x']))

theorem wellFormed_before : before.WellFormed := by
  refine .put (d := [t]) (.put (d := [t]) (.put (d := []) (.empty 0) rfl ?_ ?_) ?_ ?_ ?_) ?_ ?_ ?_
  all_goals decide +kernel

theorem quiet_before : Quiet before t out := by
  intro r x above hs hp hstage
  have hs' : before.status false t = .ok ([t], .dir) := rfl
  have hp' : (prepare before out).1 = .ok ⟨Path.ofText "/t/.stage.000000".toList, out⟩ := rfl
  have hstage' : (prepare before out).2.status true (Path.ofText "/t/.stage.000000".toList) =
      .ok ([t, fresh], .dir) := rfl
  obtain ⟨rfl, -⟩ := Prod.mk.inj (Except.ok.inj (hs.symm.trans hs'))
  obtain rfl := Except.ok.inj (hp.symm.trans hp')
  obtain ⟨habove, -⟩ := Prod.mk.inj (Except.ok.inj (hstage.symm.trans hstage'))
  obtain rfl : above = [fresh] := by simpa using habove
  decide +kernel

end InnerOutput

open InnerOutput

theorem render_reads_originals_inner :
    let w : World Vars := ⟨before, ∅, []⟩
    before.WellFormed ∧ Quiet before t out ∧
      ((∀ r ∈ renderReads .empty t out w, ∃ root, before.status false t = .ok (root, .dir) ∧
          IsOriginal before t root r.1 r.2) ∧
        ∀ n, (render .empty t out w).1 = .ok n →
          n = (renderReads .empty t out w).length ∧ ∃ root done loc, n = done.length ∧
            PublishesOriginals .empty t out w root done loc (render .empty t out w).2) ∧
      (render .empty t out w).1 = .ok 2 ∧
      (render .empty t out w).2.tree.read (Path.ofText "t/o/b.tpl".toList) =
        .ok (Utf8.encode ['b']) := by
  intro w
  exact ⟨wellFormed_before, quiet_before, render_reads_originals wellFormed_before quiet_before,
    by decide +kernel, by decide +kernel⟩

/-- The output of a template is rendered again if it is a template that the walk still comes to. -/
theorem render_reads_own_output :
    let w : World Vars := ⟨noisy, ∅, []⟩
    (render .empty t out w).1 = .ok 2 ∧
      (renderReads .empty t out w).map (fun r => r.1.path) =
        [Path.ofText "t/!.tpl.tpl".toList, Path.ofText "t/.stage.000000/!.tpl".toList] ∧
      noisy.get? [t, fresh, early] = none ∧
      (render .empty t out w).2.tree.read (Path.ofText "t/o/.stage.000000/!".toList) =
        .ok (Utf8.encode ['x']) := by
  decide +kernel

end TemplateTree
end EnvTemplate
