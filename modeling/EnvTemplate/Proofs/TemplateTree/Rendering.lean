import EnvTemplate.Proofs.Stage.Inside
import EnvTemplate.Proofs.TemplateTree.Templates

/-! Rendering one template.  Its output is a name inside the stage, so whatever becomes of it, nothing
outside the stage is changed; and where it succeeds, the stage has gained that file and the directories
that it is in. -/
namespace EnvTemplate
namespace TemplateTree

open FileTree Stage

/-! ### The names of outputs -/

theorem isTemplate_iff {n : Bytes} : isTemplate n = true ↔ ∃ stem, stem ≠ [] ∧ n = stem ++ ending := by
  simp only [isTemplate, Bool.and_eq_true, List.isSuffixOf_iff_suffix, bne_iff_ne]
  constructor
  · rintro ⟨⟨stem, rfl⟩, hne⟩
    exact ⟨stem, fun hs => hne (by simp [hs]), rfl⟩
  · rintro ⟨stem, hs, rfl⟩
    exact ⟨List.suffix_append stem ending, by simpa using hs⟩

theorem outputName_stem (stem : Bytes) :
    outputName (stem ++ ending) = if stem = Path.dot then Path.dotDot else stem := by
  simp [outputName]

theorem outputName_ne_dot (n : Bytes) : outputName n ≠ Path.dot := by
  simp only [outputName]
  split
  · decide
  · assumption

theorem isPiece_outputName {n : Bytes} (hn : Path.IsPiece n) (ht : isTemplate n = true) :
    Path.IsPiece (outputName n) := by
  obtain ⟨stem, hs, rfl⟩ := isTemplate_iff.mp ht
  rw [outputName_stem]
  split
  · exact ⟨by decide, by decide⟩
  · exact ⟨hs, fun hm => hn.2 (List.mem_append_left ending hm)⟩

theorem eq_of_outputName_eq {n m : Bytes} (hn : isTemplate n = true) (hm : isTemplate m = true)
    (h : outputName n = outputName m) (hp : outputName n ≠ Path.dotDot) : n = m := by
  obtain ⟨a, -, rfl⟩ := isTemplate_iff.mp hn
  obtain ⟨b, -, rfl⟩ := isTemplate_iff.mp hm
  rw [outputName_stem] at h hp
  rw [outputName_stem] at h
  split at h
  · next ha => exact absurd (if_pos ha) hp
  · split at h
    · next ha _ => exact absurd ((if_neg ha).trans h) hp
    · rw [h]

def outputLoc (rel : Loc) : Loc := rel.dropLast ++ [outputName (lastName rel)]

@[simp] theorem outputLoc_concat (ns : Loc) (n : Bytes) :
    outputLoc (ns ++ [n]) = ns ++ [outputName n] := by
  simp [outputLoc]

/-- Different templates have different outputs, where the output has a name of its own. -/
theorem eq_of_outputLoc_eq {a b : Loc} (ha : isTemplate (lastName a) = true)
    (hb : isTemplate (lastName b) = true) (h : outputLoc a = outputLoc b)
    (hp : ∀ n ∈ outputLoc a, IsProper n) : a = b := by
  obtain ⟨ns, n, rfl⟩ := (List.eq_nil_or_concat a).resolve_left (ne_nil_of_isTemplate ha)
  obtain ⟨ms, m, rfl⟩ := (List.eq_nil_or_concat b).resolve_left (ne_nil_of_isTemplate hb)
  simp only [List.concat_eq_append, outputLoc_concat, lastName_concat] at *
  obtain ⟨rfl, hname⟩ := List.append_inj' h rfl
  rw [eq_of_outputName_eq ha hb (List.cons.inj hname).1 (hp _ (by simp)).2]

/-! ### The paths of outputs -/

variable {templates stage : Path} {ns : List Bytes} {n : Bytes} {e : Entry}

theorem names_output (templates stage : Path) (e : Entry) (hns : ∀ m ∈ ns, Path.IsPiece m)
    (hn : Path.IsPiece n) (ht : isTemplate n = true) :
    ((Found.ofNames templates (ns ++ [n]) e).output stage).names =
      stage.names ++ ns ++ [outputName n] := by
  have ho := isPiece_outputName hn ht
  have hrel : ((Path.extend [] ns).join (outputName n)).isAbsolute = false := by
    rw [Path.isAbsolute_join, ho.isAbsolute, Path.isAbsolute_extend _ hns]
    rfl
  simp only [Found.output, Found.ofNames, List.dropLast_concat, lastName_concat]
  rw [Path.names_join _ hrel, Path.names_join _ ho.isAbsolute, Path.names_extend _ hns,
    Path.names_of_not_mem ho.2 ho.1, Path.names_nil, List.nil_append, List.append_assoc]

theorem isAbsolute_output (f : Found) (h : stage.isAbsolute = true) :
    (f.output stage).isAbsolute = true := by
  rw [Found.output, Path.isAbsolute_join, h, Bool.or_true]

theorem parent_output (templates : Path) (e : Entry) (hns : ∀ m ∈ ns, IsName m)
    (hn : Path.IsPiece n) (ht : isTemplate n = true) {above : List Bytes} {last : Bytes}
    (hs : stage.names = above ++ [last]) (hl : last ≠ Path.dot) (habs : stage.isAbsolute = true) :
    ∃ q, ((Found.ofNames templates (ns ++ [n]) e).output stage).parent? = some q ∧
      q.names = stage.names ++ ns ∧ q.isAbsolute = true := by
  have hnames := names_output templates stage e (fun m hm => (hns m hm).piece) hn ht
  obtain ⟨q, hq⟩ := Path.exists_parent? (n := outputName n) (by rw [hnames]; simp)
    (outputName_ne_dot n)
  have hparent := Path.isParent_of_parent? hq
  obtain ⟨dots, hdots, he⟩ := hparent.exists_dots hnames (outputName_ne_dot n)
  refine ⟨q, hq, ?_, hparent.isAbsolute.trans (isAbsolute_output _ habs)⟩
  rcases List.eq_nil_or_concat dots with rfl | ⟨dots, d, rfl⟩
  · rw [he, List.append_nil]
  · have hd : d = Path.dot := hdots d (by simp)
    rw [List.concat_eq_append, ← List.append_assoc] at he
    rcases List.eq_nil_or_concat ns with rfl | ⟨ms, m, rfl⟩
    · rw [List.append_nil, hs] at he
      exact absurd ((List.cons.inj (List.append_inj' he rfl).2).1.trans hd) hl
    · rw [List.concat_eq_append, ← List.append_assoc] at he
      have hm : m = d := (List.cons.inj (List.append_inj' he rfl).2).1
      exact absurd (hm.trans hd) (hns m (by simp)).proper.1

/-! ### What rendering does -/

variable {σ : Type} [VariableStore σ] {rule : UnsetRule} {f : Found} {w : World σ}

theorem renderFile_of_error (rule : UnsetRule) (stage : Path) {err : OsError}
    (h : w.tree.readText f.path = .error err) :
    ∃ failure, renderFile rule stage f w = (.error failure, w) := by
  simp only [renderFile, h]
  exact ⟨_, rfl⟩

theorem renderFile_of_ok (rule : UnsetRule) (stage : Path) {text : Text}
    (h : w.tree.readText f.path = .ok text) :
    let r := renderFile rule stage f w
    let dirs := w.tree.makeDirs ((f.output stage).parent?.getD [])
    r.2.store = (expand rule text w.store).store ∧
      ((∃ failure, r.1 = .error failure) ∧ (r.2.tree = w.tree ∨ r.2.tree = dirs.2) ∨
        ∃ output, r.1 = .ok () ∧ (expand rule text w.store).result = .ok output ∧
          dirs.1 = .ok () ∧ dirs.2.write (f.output stage) (Utf8.encode output) = .ok r.2.tree) := by
  intro r dirs
  simp only [r, renderFile, h, Outcome.during]
  cases hres : (expand rule text w.store).result with
  | error err => exact ⟨rfl, .inl ⟨⟨_, rfl⟩, .inl rfl⟩⟩
  | ok output =>
    simp only [mapError_ok]
    cases hd : w.tree.makeDirs ((f.output stage).parent?.getD []) with
    | mk made tree =>
      cases made with
      | error err => exact ⟨rfl, .inl ⟨⟨_, rfl⟩, .inr (congrArg Prod.snd hd).symm⟩⟩
      | ok _ =>
        simp only [dirs, hd, true_and]
        cases hw : tree.write (f.output stage) (Utf8.encode output) with
        | error err => exact ⟨rfl, .inl ⟨⟨_, rfl⟩, .inr rfl⟩⟩
        | ok tree' => exact ⟨rfl, .inr ⟨output, rfl, rfl, hw⟩⟩

/-- A file is added to a stage, with the directories that it is in. -/
structure Adds (v : Way) (u : FileTree) (loc : Loc) (content : Bytes) (u' : FileTree) : Prop where
  proper : ∀ n ∈ loc, IsProper n
  free : u.get? (v.loc ++ loc) ≠ some .dir
  get? (s : Loc) (e : Entry) : u'.get? (v.loc ++ s) = some e ↔
    if s = loc then e = .file content else u.get? (v.loc ++ s) = some e ∨ s <+: loc ∧ e = .dir

theorem Adds.of_put {v : Way} {u dirs : FileTree} {ns : Loc} {o content : Bytes}
    (hw : dirs.WellFormed) (hu : Extends u dirs) (hns : ∀ n ∈ ns, IsProper n) (ho : IsProper o)
    (hnew : ∀ p, dirs.get? p = u.get? p ∨
      u.get? p = none ∧ dirs.get? p = some .dir ∧ ∃ ms, ms <+: ns ∧ p = v.loc ++ ms)
    (hdir : dirs.get? (v.loc ++ ns) = some .dir)
    (hfree : dirs.get? (v.loc ++ ns ++ [o]) ≠ some .dir) :
    Adds v u (ns ++ [o]) content (dirs.put (v.loc ++ ns ++ [o]) (.file content)) := by
  have hne : v.loc ++ ns ++ [o] ≠ [] := by simp
  refine ⟨fun n hn => ?_, fun hd => hfree ?_, fun s e => ?_⟩
  · rcases List.mem_append.mp hn with hn | hn
    · exact hns n hn
    · obtain rfl := List.mem_singleton.mp hn
      exact ho
  · rw [List.append_assoc]
    exact (hu.get? (by simp [hd])).trans hd
  · have hs : v.loc ++ s = v.loc ++ ns ++ [o] ↔ s = ns ++ [o] := by
      rw [List.append_assoc, List.append_cancel_left_eq]
    rw [get?_put hne]
    simp only [hs]
    split
    · simp [eq_comm]
    · next hso =>
      constructor
      · intro he
        rcases hnew (v.loc ++ s) with hsame | ⟨-, hd, ms, hms, heq⟩
        · exact .inl (hsame ▸ he)
        · obtain rfl := List.append_cancel_left heq
          exact .inr ⟨hms.trans (List.prefix_append ns [o]), Option.some.inj (he.symm.trans hd)⟩
      · rintro (he | ⟨hp, rfl⟩)
        · exact (hu.get? (by simp [he])).trans he
        · obtain ⟨more, rfl⟩ := (List.prefix_concat_iff.mp hp).resolve_left hso
          by_cases hmore : more = []
          · rwa [hmore, List.append_nil] at hdir
          · exact hw.above hmore (by rw [List.append_assoc, hdir]; simp)

/-- Rendering a template changes the stage only, and adds its output if it succeeds. -/
theorem renderFile_cases (rule : UnsetRule) {t made b : FileTree} {out : Path} {x : Stage} {v : Way}
    (h : Opens t out x v made b) (hw : Holds v made w.tree) (hns : ∀ m ∈ ns, IsName m) (hn : IsName n)
    (ht : isTemplate n = true) (hf : f = Found.ofNames templates (ns ++ [n]) e) :
    let r := renderFile rule x.path f w
    (∃ err failure, w.tree.readText (templates.extend (ns ++ [n])) = .error err ∧
        r = (.error failure, w)) ∨
      ∃ text, w.tree.readText (templates.extend (ns ++ [n])) = .ok text ∧ Holds v made r.2.tree ∧
        r.2.store = (expand rule text w.store).store ∧
        ((∃ failure, r.1 = .error failure) ∨
          ∃ output, r.1 = .ok () ∧ (expand rule text w.store).result = .ok output ∧
            Adds v w.tree (outputLoc (ns ++ [n])) (Utf8.encode output) r.2.tree) := by
  intro r
  obtain ⟨above, hstage, -⟩ := h.names
  have hpieces : ∀ m ∈ ns, Path.IsPiece m := fun m hm => (hns m hm).piece
  have hproper : ∀ m ∈ ns, IsProper m := fun m hm => (hns m hm).proper
  have hpath : f.path = templates.extend (ns ++ [n]) := hf ▸ rfl
  obtain ⟨q, hq, hqn, hqa⟩ := parent_output templates e hns hn.piece ht hstage h.isName.proper.1
    h.absolute
  have hon := names_output templates x.path e hpieces hn.piece ht
  have hoa := isAbsolute_output f h.absolute
  rw [← hf] at hq hon
  rw [← hpath]
  cases htext : w.tree.readText f.path with
  | error err =>
    obtain ⟨failure, hr⟩ := renderFile_of_error rule x.path htext
    exact .inl ⟨err, failure, rfl, hr⟩
  | ok text =>
    right
    obtain ⟨hstore, hrest⟩ := renderFile_of_ok rule x.path htext
    rw [hq, Option.getD_some] at hrest
    have hmade := made_makeDirs w.tree q
    obtain ⟨hin, hnew⟩ := h.gains_inside hw hproper hqn hqa hmade.gains
      (hmade.wellFormed hw.wellFormed)
    refine ⟨text, rfl, ?_⟩
    rcases hrest with ⟨hfail, htree⟩ | ⟨output, hok, hres, hdirs, hwrite⟩
    · refine ⟨?_, hstore, .inl hfail⟩
      rcases htree with htree | htree
      · exact htree ▸ hw
      · exact htree ▸ hin
    · have hdir : (w.tree.makeDirs q).2.get? (v.loc ++ ns) = some .dir := by
        refine h.get?_of_isDir hin hproper hqn hqa (hmade.isDir hdirs ?_)
        rintro rfl
        cases hqa
      obtain ⟨ho, hfree, htree⟩ := h.write_inside hin hproper (outputName_ne_dot n) hon hoa hwrite
      refine ⟨htree ▸ hin.put hdir ho hfree, hstore, .inr ⟨output, hok, hres, ?_⟩⟩
      rw [htree, outputLoc_concat]
      exact .of_put hin.wellFormed hmade.gains.toExtends hproper ho.proper hnew hdir hfree

theorem renderFile_ok {t made b : FileTree} {out : Path} {x : Stage} {v : Way} {rel : Loc}
    {w' : World σ} (h : Opens t out x v made b) (hw : Holds v made w.tree)
    (hrel : ∀ m ∈ rel, IsName m) (ht : isTemplate (lastName rel) = true)
    (hr : renderFile rule x.path (Found.ofNames templates rel e) w = (.ok (), w')) :
    ∃ text output, w.tree.readText (templates.extend rel) = .ok text ∧ Holds v made w'.tree ∧
      w'.store = (expand rule text w.store).store ∧
      (expand rule text w.store).result = .ok output ∧
      Adds v w.tree (outputLoc rel) (Utf8.encode output) w'.tree := by
  obtain ⟨ns, n, rfl⟩ := (List.eq_nil_or_concat rel).resolve_left (ne_nil_of_isTemplate ht)
  simp only [List.concat_eq_append, lastName_concat] at *
  have hcases := renderFile_cases rule h hw (fun m hm => hrel m (by simp [hm]))
    (hrel n (by simp)) ht (rfl : Found.ofNames templates (ns ++ [n]) e = _)
  rw [hr] at hcases
  rcases hcases with ⟨err, failure, -, hf⟩ | ⟨text, hread, hw', hs, ⟨failure, hf⟩ | ⟨output, -, hres, ha⟩⟩
  · cases hf
  · cases hf
  · exact ⟨text, output, hread, hw', hs, hres, ha⟩

theorem renderFile_error {t made b : FileTree} {out : Path} {x : Stage} {v : Way} {rel : Loc}
    {w' : World σ} {failure : Failure} (h : Opens t out x v made b) (hw : Holds v made w.tree)
    (hrel : ∀ m ∈ rel, IsName m) (ht : isTemplate (lastName rel) = true)
    (hr : renderFile rule x.path (Found.ofNames templates rel e) w = (.error failure, w')) :
    Holds v made w'.tree ∧
      ((∃ err, w.tree.readText (templates.extend rel) = .error err) ∧ w'.store = w.store ∨
        ∃ text, w.tree.readText (templates.extend rel) = .ok text ∧
          w'.store = (expand rule text w.store).store) := by
  obtain ⟨ns, n, rfl⟩ := (List.eq_nil_or_concat rel).resolve_left (ne_nil_of_isTemplate ht)
  simp only [List.concat_eq_append, lastName_concat] at *
  have hcases := renderFile_cases rule h hw (fun m hm => hrel m (by simp [hm]))
    (hrel n (by simp)) ht (rfl : Found.ofNames templates (ns ++ [n]) e = _)
  rw [hr] at hcases
  rcases hcases with ⟨err, f, hread, hf⟩ | ⟨text, hread, hw', hs, -⟩
  · obtain rfl := (Prod.mk.inj hf).2
    exact ⟨hw, .inl ⟨⟨err, hread⟩, rfl⟩⟩
  · exact ⟨hw', .inr ⟨text, hread, hs⟩⟩

end TemplateTree
end EnvTemplate
