import EnvTemplate.Proofs.Stage.Success
import EnvTemplate.Proofs.TemplateTree.Render

/-! A rendering that succeeds.  It has rendered all templates that can be listed, one after another, and
what stands at the output is just what they came to. -/
namespace EnvTemplate
namespace TemplateTree

open FileTree Stage

section Render

variable {σ : Type} [VariableStore σ] {rule : UnsetRule} {templates out : Path} {w : World σ}

section Walked

variable {root rel : Loc} {x : Stage} {v : Way} {made : FileTree} {passed : List Loc}
  {done : List Rendered} {items : List (Loc × Entry)} {w' : World σ}

theorem Walked.apart
    (h : Walked rule templates out w root x v made passed done items w')
    (hout : ∀ d e, (w.tree.makeDirs out.beside).2.status false out.beside = .ok (d, e) →
      ¬root <+: d) (rel : Loc) : ¬v.loc <+: root ++ rel := by
  obtain ⟨hs, -, hx, -, -⟩ := h
  obtain ⟨-, _, hlead⟩ := leads_of_status (hx.gains.toExtends.status hs)
  have hroot := hlead.get?_eq_dir hx.wellFormed (hx.wellFormed.get?_origin templates)
  intro hp
  have hbeside := hout v.dir .dir (hx.dirs ▸ hx.beside)
  rcases List.prefix_or_prefix_of_prefix hp (List.prefix_append root rel) with hv | hv
  · rw [hx.get?_made_eq_none hv] at hroot
    cases hroot
  · rcases List.prefix_concat_iff.mp hv with heq | hv
    · rw [heq, ← Way.loc, hx.fresh] at hroot
      cases hroot
    · exact hbeside hv

/-- A walk outside the stage has enough steps to come to its end. -/
theorem Walked.length_passed_lt
    (h : Walked rule templates out w root x v made passed done items w')
    (hapart : ∀ rel, ¬v.loc <+: root ++ rel) :
    passed.length < bound (prepare w.tree out).2 := by
  obtain ⟨-, -, hx, hf, -⟩ := h
  have hext := hx.extends_of_holds hx.holds
  have hle : (passed.map (root ++ ·)).length ≤ (prepare w.tree out).2.extent := by
    refine length_le_extent ?_ fun p hp => ?_
    · exact (List.nodup_map_iff fun a b hab => List.append_cancel_left hab).mpr hf.nodup
    · obtain ⟨rel, hrel, rfl⟩ := List.mem_map.mp hp
      obtain ⟨hne, -, he⟩ := hf.seen hrel
      refine ⟨by simp [hne], ?_⟩
      rw [hext.get? (he (hapart rel))]
      exact he (hapart rel)
  rw [List.length_map] at hle
  have hpow : (prepare w.tree out).2.extent + 2 ≤ bound (prepare w.tree out).2 :=
    Nat.le_self_pow (by decide) _
  omega

theorem mem_templatesIn_of_made {t b : FileTree} {s₀ s : σ} {u : FileTree} {d : Rendered}
    {content : Bytes} (hx : Opens t out x v made b) (hf : Frontier made v templates root u passed items)
    (ho : Output rule made v templates root s₀ passed done u s) (hd : d ∈ done)
    (he : made.get? (root ++ d.loc) = some (.file content)) :
    (d.loc, content) ∈ templatesIn t templates root := by
  have hseen := hf.seen (ho.inOrder.subset (List.mem_map_of_mem hd))
  exact mem_templatesIn.mpr ⟨get?_of_made hx he, ho.template hd, hseen.2.1⟩

theorem decode?_of_source? {content : Bytes} {text : Text}
    (h : source? templates rel content = some text) : Utf8.decode? content = some text := by
  unfold source? at h
  split at h
  · exact h
  · cases h

theorem Walked.mem_templatesIn
    (h : Walked rule templates out w root x v made passed done items w')
    (hapart : ∀ rel, ¬v.loc <+: root ++ rel) {d : Rendered} (hd : d ∈ done) :
    ∃ content, (d.loc, content) ∈ templatesIn w.tree templates root ∧
      Utf8.decode? content = some d.source := by
  obtain ⟨-, -, hx, hf, ho⟩ := h
  obtain ⟨earlier, later, hsplit⟩ := List.append_of_mem hd
  obtain ⟨content, hc | ⟨_, -, hloc, -⟩, hsource⟩ := ho.source hsplit
  · exact ⟨content, mem_templatesIn_of_made hx hf ho hd hc, decode?_of_source? hsource⟩
  · exact absurd (hloc ▸ List.prefix_append _ _) (hapart d.loc)

theorem Walked.done_eq
    (h : Walked rule templates out w root x v made passed done [] w')
    (hapart : ∀ rel, ¬v.loc <+: root ++ rel) :
    (done.map fun d => (d.loc, some d.source)) =
      (templatesIn w.tree templates root).map fun i => (i.1, Utf8.decode? i.2) := by
  have hdone := fun {d} => h.mem_templatesIn hapart (d := d)
  obtain ⟨-, -, hx, hf, ho⟩ := h
  let before (a b : Loc × Option Text) : Prop := Loc.Before a.1 b.1
  have : Std.Irrefl before := ⟨fun a => Loc.Before.irrefl a.1⟩
  have : Std.Antisymm before := ⟨fun a b hab hba => absurd (hab.trans hba) (Loc.Before.irrefl a.1)⟩
  refine List.Pairwise.eq_of_mem_iff (r := before) ?_ ?_ fun ⟨rel, o⟩ => ⟨fun hm => ?_, fun hm => ?_⟩
  · have hsorted := (List.pairwise_append.mp hf.sorted).1.sublist ho.inOrder
    rw [List.pairwise_map] at hsorted
    rw [List.pairwise_map]
    exact hsorted
  · exact List.pairwise_map.mpr (sorted_templatesIn w.tree templates root)
  · obtain ⟨d, hd, heq⟩ := List.mem_map.mp hm
    obtain ⟨rfl, rfl⟩ := Prod.mk.inj heq
    obtain ⟨content, hi, hdecode⟩ := hdone hd
    exact List.mem_map.mpr ⟨(d.loc, content), hi, by rw [hdecode]⟩
  · obtain ⟨⟨r, content⟩, hi, heq⟩ := List.mem_map.mp hm
    obtain ⟨rfl, rfl⟩ := Prod.mk.inj heq
    obtain ⟨he, ht, hl⟩ := TemplateTree.mem_templatesIn.mp hi
    have hmade := (hx.gains.toExtends.get? (by simp [he])).trans he
    have hpassed : r ∈ passed := by
      rcases hf.covered (ne_nil_of_isTemplate ht) (by simp [hmade]) hl with hp | ⟨i, hi, -⟩
      · exact hp
      · simp at hi
    obtain ⟨d, hd, rfl⟩ := List.mem_map.mp (ho.complete hpassed hmade ht)
    obtain ⟨content', hi', hdecode⟩ := hdone hd
    have hsame := (TemplateTree.mem_templatesIn.mp hi').1
    rw [he] at hsame
    obtain rfl := Entry.file.inj (Option.some.inj hsame)
    exact List.mem_map.mpr ⟨d, hd, by rw [hdecode]⟩

/-- Where a walk has been and the stage is published, what was rendered stands at the output, and nothing
else does. -/
theorem Walked.published (h : Walked rule templates out w root x v made passed done items w')
    (hpub : (x.publish w'.tree).1 = .ok ()) :
    ∃ loc, (x.publish w'.tree).2.status true out = .ok (loc, .dir) ∧
      (∀ path, path ≠ [] → ∀ e, (x.publish w'.tree).2.get? (loc ++ path) = some e ↔
        IsOutput done path e) ∧
      ∀ q, ¬loc <+: q → (x.publish w'.tree).2.get? q = made.get? q := by
  obtain ⟨-, -, hx, -, ho⟩ := h
  have hholds := ho.holds
  obtain ⟨z, hz⟩ := publish_replaces hholds.wellFormed (hx.goes_of_holds hholds)
    (fun y hy => hx.goes_target hholds hy) hpub
  have hzd : (x.publish w'.tree).2.get? z.loc = some .dir := by
    have htarget := hz.target []
    rw [List.append_nil, List.append_nil] at htarget
    exact htarget.trans hholds.stage
  have htarget := (hz.goes.status_eq_ok_iff (by simp [hzd])).mpr
    ⟨rfl, hz.length, hzd, fun _ => rfl⟩
  rw [hx.target] at htarget
  refine ⟨z.loc, htarget, fun path hp e => by rw [hz.target, ho.staged hp], fun q hq => ?_⟩
  rw [hz.other hq]
  split
  · next hp => rw [hx.get?_made_eq_none hp]
  · next hp => exact hholds.outside hp

end Walked

theorem exists_stem {rel : Loc} (ht : isTemplate (lastName rel) = true)
    (hp : ∀ n ∈ outputLoc rel, IsProper n) :
    ∃ stem, lastName rel = stem ++ ending ∧ outputLoc rel = rel.dropLast ++ [stem] := by
  obtain ⟨stem, -, hs⟩ := isTemplate_iff.mp ht
  refine ⟨stem, hs, ?_⟩
  have hname := outputName_stem stem
  rw [outputLoc, hs] at hp ⊢
  rw [hname] at hp ⊢
  split at hp
  · exact absurd rfl (hp Path.dotDot (by simp)).2
  · next hdot => rw [if_neg hdot]

/-- The templates of a tree were rendered one after another, and what stands at the output is just what
they came to. -/
structure Publishes (rule : UnsetRule) (templates out : Path) (w : World σ) (root : Loc)
    (done : List Rendered) (loc : Loc) (made : FileTree) (w' : World σ) : Prop where
  isDir : w.tree.status false templates = .ok (root, .dir)
  templates : (done.map fun d => (d.loc, some d.source)) =
    (templatesIn w.tree templates root).map fun i => (i.1, Utf8.decode? i.2)
  expanded : expandEach rule (done.map Rendered.source) w.store =
    (.ok (done.map Rendered.output), w'.store)
  /-- The output of a template has the template's name without its ending. -/
  stem {d : Rendered} (h : d ∈ done) : ∃ stem, lastName d.loc = stem ++ ending ∧
    outputLoc d.loc = d.loc.dropLast ++ [stem]
  target : w'.tree.status true out = .ok (loc, .dir)
  files {path : Loc} (h : path ≠ []) (e : Entry) :
    w'.tree.get? (loc ++ path) = some e ↔ IsOutput done path e
  gains : Gains out.beside w.tree made
  outside {q : Loc} (h : ¬loc <+: q) : w'.tree.get? q = made.get? q

/-- A rendering that succeeds publishes what all templates come to, and nothing else. -/
theorem render_publishes_templates (hw : w.tree.WellFormed) {n : Nat}
    (h : (render rule templates out w).1 = .ok n)
    (hout : ∀ root d e, w.tree.status false templates = .ok (root, .dir) →
      (w.tree.makeDirs out.beside).2.status false out.beside = .ok (d, e) → ¬root <+: d) :
    ∃ root done loc made, n = done.length ∧
      Publishes rule templates out w root done loc made (render rule templates out w).2 := by
  rcases render_cases hw rule templates out with
    ⟨⟨f, hf⟩, -⟩ | ⟨root, x, v, made, passed, done, items, u, hwalk, hend⟩
  · rw [hf] at h
    cases h
  rcases hend with ⟨rel, content, rest, f, u', rfl, ht, hr, hrender⟩ | ⟨hlen, hstore, htree, hpub⟩
  · rw [hrender] at h
    cases h
  have hapart := hwalk.apart fun d e => hout root d e hwalk.isDir
  rcases hpub with ⟨f, hf⟩ | ⟨hpub, hok⟩
  · rw [hf] at h
    cases h
  have hitems : items = [] :=
    hlen.resolve_right (Nat.ne_of_lt (hwalk.length_passed_lt hapart))
  subst hitems
  have hdone := hwalk.done_eq hapart
  obtain ⟨loc, htarget, hfiles, houtside⟩ := hwalk.published hpub
  obtain ⟨hs, -, hx, hf, ho⟩ := hwalk
  refine ⟨root, done, loc, made, Except.ok.inj (h.symm.trans hok), ?_⟩
  exact
    { isDir := hs
      templates := hdone
      expanded := hstore ▸ ho.expanded
      stem := fun {d} hd => exists_stem (ho.template hd) (ho.proper hd)
      target := htree ▸ htarget
      files := fun {path} hp e => htree ▸ hfiles path hp e
      gains := hx.gains
      outside := fun {q} hq => htree ▸ houtside q hq }

end Render

/-! ### A tree to render -/

namespace Nested

def t : Bytes := Path.ofText ['t']

def d : Bytes := Path.ofText ['d']

def a : Bytes := Path.ofText "a.tpl".toList

def b : Bytes := Path.ofText "b.tpl".toList

def before : FileTree :=
  ((((FileTree.mk ∅ [] 0).put [t] .dir).put [t, d] .dir).put [t, d, b]
    (.file (Utf8.encode "$A!".toList))).put [t, a] (.file (Utf8.encode "${A:=1}".toList))

def out : Path := Path.ofText "p/o".toList

theorem wellFormed_before : before.WellFormed := by
  refine .put (d := [t]) (.put (d := [t, d]) (.put (d := [t]) (.put (d := []) (.empty 0) rfl
    ?_ ?_) ?_ ?_ ?_) ?_ ?_ ?_) ?_ ?_ ?_
  all_goals decide +kernel

end Nested

open Nested

theorem render_publishes_templates_nested :
    let w : World Vars := ⟨before, ∅, []⟩
    before.WellFormed ∧ (render .empty t out w).1 = .ok 2 ∧
      (∀ root d e, before.status false t = .ok (root, .dir) →
        (before.makeDirs out.beside).2.status false out.beside = .ok (d, e) → ¬root <+: d) ∧
      (∃ root done loc made, 2 = done.length ∧
        Publishes .empty t out w root done loc made (render .empty t out w).2) ∧
      (render .empty t out w).2.tree.read (Path.ofText "p/o/d/b".toList) =
        .ok (Utf8.encode "1!".toList) := by
  intro w
  have h : (render .empty t out w).1 = .ok 2 := by decide +kernel
  have hout : ∀ root d e, before.status false t = .ok (root, .dir) →
      (before.makeDirs out.beside).2.status false out.beside = .ok (d, e) → ¬root <+: d := by
    intro root d e hs hd
    have hs' : before.status false t = .ok ([t], .dir) := by decide +kernel
    have hd' : (before.makeDirs out.beside).2.status false out.beside =
        .ok ([Path.ofText ['p']], .dir) := by decide +kernel
    obtain ⟨rfl, -⟩ := Prod.mk.inj (Except.ok.inj (hs.symm.trans hs'))
    obtain ⟨rfl, -⟩ := Prod.mk.inj (Except.ok.inj (hd.symm.trans hd'))
    decide
  exact ⟨wellFormed_before, h, hout, render_publishes_templates wellFormed_before h hout,
    by decide +kernel⟩

/-! ### A directory that is too deep -/

namespace Deep

def z : Bytes := Path.ofText "z.tpl".toList

def long : Bytes := List.replicate 200 0x65

def before : FileTree :=
  ((((FileTree.mk ∅ [] 0).put [t] .dir).put [t, long] .dir).put [t, long, a]
    (.file (Utf8.encode "v".toList))).put [t, z] (.file (Utf8.encode "z".toList))

/-- A long path to the directory of the templates. -/
def templates : Path := (List.replicate 780 (Path.ofText "t/../".toList)).flatten ++ t

end Deep

/-- A template is passed over if the path to its directory is too long. -/
theorem render_passes_over_deep_directory :
    let w : World Vars := ⟨Deep.before, ∅, []⟩
    Deep.before.WellFormed ∧ Deep.before.status false Deep.templates = .ok ([t], .dir) ∧
      (Deep.before.makeDirs (Path.beside d)).2.status false (Path.beside d) = .ok ([], .dir) ∧
      ((Deep.before.under [t]).filter fun (rel, e) =>
        match e with
        | .file _ => isTemplate (lastName rel)
        | _ => false).length = 2 ∧
      (render .empty Deep.templates d w).1 = .ok 1 := by
  intro w
  refine ⟨?_, by decide +kernel, by decide +kernel,
    by decide +kernel, by decide +kernel⟩
  refine .put (d := [t]) (.put (d := [t, Deep.long]) (.put (d := [t]) (.put (d := [])
    (.empty 0) rfl ?_ ?_) ?_ ?_ ?_) ?_ ?_ ?_) ?_ ?_ ?_
  all_goals decide +kernel

end TemplateTree
end EnvTemplate
