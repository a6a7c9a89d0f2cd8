import EnvTemplate.Proofs.TemplateTree.Render

/-! A rendering that fails before it publishes.  It leaves no trace but directories for its output, and the
store has the assignments of the templates up to the one that failed. -/
namespace EnvTemplate
namespace TemplateTree

open FileTree Stage

section Render

variable {σ : Type} [VariableStore σ] {rule : UnsetRule} {templates out : Path} {w : World σ}

/-- What a walk reads under some names: a template of the tree it began with, or where that has nothing,
the output of an earlier template. -/
def ReadsAs (t : FileTree) (templates : Path) (root : Loc) (earlier : List Rendered) (rel : Loc)
    (content : Bytes) : Prop :=
  (rel, content) ∈ templatesIn t templates root ∨
    t.get? (root ++ rel) = none ∧ ∃ d ∈ earlier, content = Utf8.encode d.output

/-- The templates of a tree were rendered in their order, up to one that could not be. -/
structure Halts (rule : UnsetRule) (t : FileTree) (templates : Path) (root : Loc) (s₀ : σ)
    (done : List Rendered) (rel : Loc) (s : σ) : Prop where
  isTemplate : isTemplate (lastName rel) = true
  sorted : (done.map Rendered.loc ++ [rel]).Pairwise Loc.Before
  complete {i : Loc × Bytes} (h : i ∈ templatesIn t templates root) (hb : Loc.Before i.1 rel) :
    i.1 ∈ done.map Rendered.loc
  source {earlier later : List Rendered} {d : Rendered} (h : done = earlier ++ d :: later) :
    ∃ content, ReadsAs t templates root earlier d.loc content ∧
      source? templates d.loc content = some d.source
  /-- The assignments are those of the templates before, and of the last one if it could be read. -/
  store : ∃ content mid, ReadsAs t templates root done rel content ∧
    expandEach rule (done.map Rendered.source) s₀ = (.ok (done.map Rendered.output), mid) ∧
    s = match source? templates rel content with
      | some text => (expand rule text mid).store
      | none => mid

section Walked

variable {root rel : Loc} {x : Stage} {v : Way} {made : FileTree} {passed : List Loc}
  {done earlier : List Rendered} {items : List (Loc × Entry)} {w' : World σ} {content : Bytes}

theorem readsAs_of_isSource {t b : FileTree} (hx : Opens t out x v made b)
    (h : IsSource made v root earlier rel content) (ht : isTemplate (lastName rel) = true)
    (hl : (templates.extend rel.dropLast).length ≤ maxPath) :
    ReadsAs t templates root earlier rel content := by
  rcases h with he | ⟨d, hd, hloc, he⟩
  · exact .inl (mem_templatesIn.mpr ⟨get?_of_made hx he, ht, hl⟩)
  · exact .inr ⟨hx.get?_eq_none (hloc ▸ List.prefix_append _ _), d, hd, he⟩

theorem Walked.halts {content : Bytes} {rest : List (Loc × Entry)} {failure : Failure}
    {w'' : World σ}
    (h : Walked rule templates out w root x v made passed done ((rel, .file content) :: rest) w')
    (ht : isTemplate (lastName rel) = true)
    (hr : renderFile rule x.path (Found.ofNames templates rel (.file content)) w' =
      (.error failure, w'')) :
    Holds v made w''.tree ∧ Halts rule w.tree templates root w.store done rel w''.store := by
  obtain ⟨hs, -, hx, hf, ho⟩ := h
  obtain ⟨-, hnames⟩ := hf.name List.mem_cons_self
  obtain ⟨hholds, hstore⟩ := renderFile_error hx ho.holds hnames ht hr
  have hext := hx.extends_of_holds ho.holds
  have hroot := (hx.gains.toExtends.trans hext).status hs
  have hfile := hf.here List.mem_cons_self
  refine ⟨hholds, ht, hf.sorted.sublist ?_, fun {i} hi hb => ?_, fun {earlier later d} hd => ?_, ?_⟩
  · exact ho.inOrder.append (by simp)
  · obtain ⟨he, hit, hl⟩ := mem_templatesIn.mp hi
    have hmade := (hx.gains.toExtends.get? (by simp [he])).trans he
    exact ho.complete
      (hf.mem_passed_of_before (ne_nil_of_isTemplate hit) (by simp [hmade]) hl hb) hmade hit
  · obtain ⟨c, hc, hsource⟩ := ho.source hd
    have hmem : d ∈ done := by simp [hd]
    have hseen := hf.seen (ho.inOrder.subset (List.mem_map_of_mem hmem))
    exact ⟨c, readsAs_of_isSource hx hc (ho.template hmem) hseen.2.1, hsource⟩
  · refine ⟨content, w'.store, readsAs_of_isSource hx (ho.isSource hfile) ht
      (hf.listable List.mem_cons_self), ho.expanded, ?_⟩
    have hread (text : Text) : w'.tree.readText (templates.extend rel) = .ok text ↔
        source? templates rel content = some text :=
      readText_eq_ok_iff ho.holds.wellFormed hroot hfile
    rcases hstore with ⟨⟨err, herr⟩, hstore⟩ | ⟨text, htext, hstore⟩
    · cases hsource : source? templates rel content with
      | none => exact hstore
      | some text => simp [(hread text).mpr hsource] at herr
    · rw [(hread text).mp htext]
      exact hstore

end Walked

/-- A rendering that fails before it publishes leaves no trace but directories for its output, and the
assignments of the templates up to the one that failed. -/
theorem failed_render_leaves_no_trace (hw : w.tree.WellFormed) {failure : Failure}
    (h : (render rule templates out w).1 = .error failure)
    (hc : failure.contexts.head? ≠ some "commit transaction".toList) :
    let w' := (render rule templates out w).2
    Gains out.beside w.tree w'.tree ∧
      (∀ x, (prepare w.tree out).1 = .ok x → ∃ e, w'.tree.status true x.path = .error e) ∧
      ((w.tree.isDir templates = false ∨ ∃ failure, (prepare w.tree out).1 = .error failure) ∧
          w'.store = w.store ∨
        ∃ root done rel, w.tree.status false templates = .ok (root, .dir) ∧
          Halts rule w.tree templates root w.store done rel w'.store) := by
  intro w'
  rcases render_cases hw rule templates out with
    ⟨-, hstore, hg, hbegin⟩ | ⟨root, x, v, made, passed, done, items, u, hwalk, hend⟩
  · refine ⟨hg, fun x hx => ?_, .inl ⟨hbegin.imp_left And.left, hstore⟩⟩
    rcases hbegin with ⟨-, htree⟩ | ⟨f, hf⟩
    · rcases prepare_cases hw out with ⟨⟨f, hf⟩, -⟩ | ⟨y, v, made, hy, hopens⟩
      · rw [hx] at hf
        cases hf
      · obtain rfl := Except.ok.inj (hx.symm.trans hy)
        exact hopens.status_eq_error (htree ▸ hopens.gains.toExtends)
    · rw [hx] at hf
      cases hf
  · rcases hend with ⟨rel, content, rest, f, u', rfl, ht, hr, hrender⟩ | ⟨-, -, -, hpub⟩
    · obtain ⟨hholds, hhalts⟩ := hwalk.halts ht hr
      obtain ⟨hcwd, hget⟩ := hwalk.opens.discard hholds
      have htree : w'.tree = x.discard u'.tree := by simp only [w', hrender]
      have hstore : w'.store = u'.store := by simp only [w', hrender]
      refine ⟨hwalk.opens.gains.congr (htree ▸ hcwd) (htree ▸ hget), fun y hy => ?_,
        .inr ⟨root, done, rel, hwalk.isDir, hstore ▸ hhalts⟩⟩
      obtain rfl := Except.ok.inj (hwalk.prepared.symm.trans hy)
      refine hwalk.opens.status_eq_error ⟨(htree ▸ hcwd).symm, fun {q} _ => ?_⟩
      rw [htree, hget]
    · exfalso
      rcases hpub with ⟨f, hf⟩ | ⟨-, hok⟩
      · obtain rfl := Except.error.inj (hf.symm.trans h)
        exact hc rfl
      · rw [hok] at h
        cases h

end Render

/-! ### A template that cannot be rendered -/

namespace Broken

def t : Bytes := Path.ofText ['t']

def a : Bytes := Path.ofText "a.tpl".toList

def b : Bytes := Path.ofText "b.tpl".toList

def out : Path := Path.ofText "p/o".toList

def before : FileTree :=
  (((FileTree.mk ∅ [] 0).put [t] .dir).put [t, a] (.file (Utf8.encode "${A:=1}".toList))).put [t, b]
    (.file (Utf8.encode "${C:=3}${B:?gone}".toList))

def failure : Failure := ⟨["expand t/b.tpl".toList], .expansion (.missing ['B'] "gone".toList)⟩

theorem wellFormed_before : before.WellFormed := by
  refine .put (d := [t]) (.put (d := [t]) (.put (d := []) (.empty 0) rfl ?_ ?_) ?_ ?_ ?_) ?_ ?_ ?_
  all_goals decide +kernel

end Broken

open Broken

theorem failed_render_leaves_no_trace_second :
    let w : World Vars := ⟨before, ∅, []⟩
    let w' := (render .empty t out w).2
    before.WellFormed ∧ (render .empty t out w).1 = .error failure ∧
      failure.contexts.head? ≠ some "commit transaction".toList ∧
      (Gains out.beside before w'.tree ∧
        (∀ x, (prepare before out).1 = .ok x → ∃ e, w'.tree.status true x.path = .error e) ∧
        ((before.isDir t = false ∨ ∃ failure, (prepare before out).1 = .error failure) ∧
            w'.store = w.store ∨
          ∃ root done rel, before.status false t = .ok (root, .dir) ∧
            Halts .empty before t root w.store done rel w'.store)) ∧
      w'.store.toList = [(['A'], ['1']), (['C'], ['3'])] := by
  intro w w'
  have h : (render .empty t out w).1 = .error failure := by decide +kernel
  have hc : failure.contexts.head? ≠ some "commit transaction".toList := by decide
  exact ⟨wellFormed_before, h, hc, failed_render_leaves_no_trace wellFormed_before h hc,
    by decide +kernel⟩

end TemplateTree
end EnvTemplate
