import EnvTemplate.Proofs.Expansion.Sequence
import EnvTemplate.Proofs.TemplateTree.Frontier
import EnvTemplate.Proofs.TemplateTree.Rendering

/-! What a walk does.  Whatever it has passed, the templates among it were expanded one after another and
their outputs are in the stage, and nothing else.  This holds at the start and at each step, so it holds
where the walk ends and where a template cannot be rendered. -/
namespace EnvTemplate
namespace TemplateTree

open FileTree Stage

/-- A template that was rendered: its names, what it said and what it came to. -/
structure Rendered where
  loc : Loc
  source : Text
  output : Text

/-- What some outputs come to: files, and the directories that these are in. -/
def IsOutput (done : List Rendered) (s : Loc) (e : Entry) : Prop :=
  (∃ d ∈ done, s = outputLoc d.loc ∧ e = .file (Utf8.encode d.output)) ∨
    e = .dir ∧ ∃ d ∈ done, s <+: outputLoc d.loc ∧ s ≠ outputLoc d.loc

theorem isOutput_concat {done : List Rendered} {d : Rendered} {s : Loc} {e : Entry} :
    IsOutput (done ++ [d]) s e ↔ IsOutput done s e ∨
      s = outputLoc d.loc ∧ e = .file (Utf8.encode d.output) ∨
      (s <+: outputLoc d.loc ∧ s ≠ outputLoc d.loc) ∧ e = .dir := by
  simp only [IsOutput, List.mem_append, List.mem_singleton]
  constructor
  · rintro (⟨d', hd | rfl, h⟩ | ⟨rfl, d', hd | rfl, h⟩)
    · exact .inl (.inl ⟨d', hd, h⟩)
    · exact .inr (.inl h)
    · exact .inl (.inr ⟨rfl, d', hd, h⟩)
    · exact .inr (.inr ⟨h, rfl⟩)
  · rintro ((⟨d', hd, h⟩ | ⟨rfl, d', hd, h⟩) | h | ⟨h, rfl⟩)
    · exact .inl ⟨d', .inl hd, h⟩
    · exact .inr ⟨rfl, d', .inl hd, h⟩
    · exact .inl ⟨d, .inr rfl, h⟩
    · exact .inr ⟨rfl, d, .inr rfl, h⟩

/-- What a template says: what stood under its names from the start, or if the stage is among the
templates, the output of an earlier template that has its place. -/
def IsSource (made : FileTree) (v : Way) (root : Loc) (earlier : List Rendered) (rel : Loc)
    (content : Bytes) : Prop :=
  made.get? (root ++ rel) = some (.file content) ∨
    ∃ d ∈ earlier, root ++ rel = v.loc ++ outputLoc d.loc ∧ content = Utf8.encode d.output

variable {σ : Type} [VariableStore σ]

/-- What was rendered while a walk passed some places. -/
structure Output (rule : UnsetRule) (made : FileTree) (v : Way) (templates : Path) (root : Loc)
    (s₀ : σ) (passed : List Loc) (done : List Rendered) (u : FileTree) (s : σ) : Prop where
  holds : Holds v made u
  expanded : expandEach rule (done.map Rendered.source) s₀ = (.ok (done.map Rendered.output), s)
  inOrder : (done.map Rendered.loc).Sublist passed
  template {d : Rendered} (h : d ∈ done) : isTemplate (lastName d.loc) = true
  source {earlier later : List Rendered} {d : Rendered} (h : done = earlier ++ d :: later) :
    ∃ content, IsSource made v root earlier d.loc content ∧
      source? templates d.loc content = some d.source
  complete {rel : Loc} {content : Bytes} (h : rel ∈ passed)
    (he : made.get? (root ++ rel) = some (.file content))
    (ht : isTemplate (lastName rel) = true) : rel ∈ done.map Rendered.loc
  proper {d : Rendered} (h : d ∈ done) : ∀ n ∈ outputLoc d.loc, IsProper n
  staged {path : Loc} (hp : path ≠ []) (e : Entry) :
    u.get? (v.loc ++ path) = some e ↔ IsOutput done path e

variable {rule : UnsetRule} {t made b u u' : FileTree} {out templates : Path} {x : Stage} {v : Way}
  {root rel : Loc} {s₀ s s' : σ} {passed : List Loc} {done : List Rendered}
  {items : List (Loc × Entry)} {e : Entry} {w : World σ}

namespace Output

theorem start (h : Opens t out x v made b) (rule : UnsetRule) (templates : Path) (root : Loc)
    (s₀ : σ) : Output rule made v templates root s₀ [] [] b s₀ where
  holds := h.holds
  expanded := rfl
  inOrder := .slnil
  template h := by simp at h
  source h := by simp at h
  complete h := by simp at h
  proper h := by simp at h
  staged {path} hp e := by
    rw [h.get?, if_neg (by simpa using hp), h.get?_made_eq_none (List.prefix_append _ _)]
    simp [IsOutput]

theorem pass (ho : Output rule made v templates root s₀ passed done u s)
    (hrel : ∀ content, made.get? (root ++ rel) = some (.file content) →
      isTemplate (lastName rel) = false) :
    Output rule made v templates root s₀ (passed ++ [rel]) done u s where
  holds := ho.holds
  expanded := ho.expanded
  inOrder := ho.inOrder.trans (List.sublist_append_left passed [rel])
  template := ho.template
  source := ho.source
  complete {r content} hr he ht := by
    rcases List.mem_append.mp hr with hr | hr
    · exact ho.complete hr he ht
    · obtain rfl := List.mem_singleton.mp hr
      rw [hrel content he] at ht
      cases ht
  proper := ho.proper
  staged := ho.staged

theorem outputLoc_ne (ho : Output rule made v templates root s₀ passed done u s)
    (hrel : rel ∉ passed) (ht : isTemplate (lastName rel) = true) {d : Rendered} (hd : d ∈ done) :
    outputLoc d.loc ≠ outputLoc rel := by
  intro heq
  obtain rfl := eq_of_outputLoc_eq (ho.template hd) ht heq (ho.proper hd)
  exact hrel (ho.inOrder.subset (List.mem_map_of_mem hd))

theorem add (ho : Output rule made v templates root s₀ passed done u s) (hrel : rel ∉ passed)
    (ht : isTemplate (lastName rel) = true) {text output : Text} (hu : Holds v made u')
    {content : Bytes} (hc : IsSource made v root done rel content)
    (hsource : source? templates rel content = some text)
    (hexpand : (expand rule text s).result = .ok output)
    (hadds : Adds v u (outputLoc rel) (Utf8.encode output) u') :
    Output rule made v templates root s₀ (passed ++ [rel]) (done ++ [⟨rel, text, output⟩]) u'
      (expand rule text s).store where
  holds := hu
  expanded := by
    rw [List.map_append, expandEach_append ho.expanded, List.map_singleton, expandEach_singleton,
      hexpand, List.map_append]
    rfl
  inOrder := by
    rw [List.map_append]
    exact ho.inOrder.append (List.Sublist.refl _)
  template {d} hd := by
    rcases List.mem_append.mp hd with hd | hd
    · exact ho.template hd
    · obtain rfl := List.mem_singleton.mp hd
      exact ht
  source {earlier later d} heq := by
    rcases List.eq_nil_or_concat later with rfl | ⟨later, last, rfl⟩
    · obtain ⟨rfl, hd⟩ := List.append_inj' heq rfl
      obtain rfl := (List.cons.inj hd).1
      exact ⟨content, hc, hsource⟩
    · rw [List.concat_eq_append, ← List.cons_append, ← List.append_assoc] at heq
      exact ho.source (List.append_inj' heq rfl).1
  complete {r content} hr he hrt := by
    rw [List.map_append]
    rcases List.mem_append.mp hr with hr | hr
    · exact List.mem_append_left _ (ho.complete hr he hrt)
    · exact List.mem_append_right _ (by simpa using hr)
  proper {d} hd := by
    rcases List.mem_append.mp hd with hd | hd
    · exact ho.proper hd
    · obtain rfl := List.mem_singleton.mp hd
      exact hadds.proper
  staged {path} hp e := by
    rw [hadds.get?, isOutput_concat]
    split
    · next heq =>
      subst heq
      refine ⟨fun he => .inr (.inl ⟨rfl, he⟩), ?_⟩
      rintro (hdone | ⟨-, rfl⟩ | ⟨⟨-, hne⟩, -⟩)
      · rcases hdone with ⟨d, hd, heq, -⟩ | ⟨rfl, hdir⟩
        · exact absurd heq.symm (ho.outputLoc_ne hrel ht hd)
        · exact absurd ((ho.staged hp .dir).mpr (.inr ⟨rfl, hdir⟩)) hadds.free
      · rfl
      · exact absurd rfl hne
    · next hne =>
      rw [ho.staged hp]
      simp [hne]

/-- The output of a new template is new, so nothing is lost. -/
theorem extends_of_adds (ho : Output rule made v templates root s₀ passed done u s)
    (hrel : rel ∉ passed) (ht : isTemplate (lastName rel) = true) {content : Bytes}
    (hu : Holds v made u') (hadds : Adds v u (outputLoc rel) content u') : Extends u u' := by
  refine ⟨hu.cwd.trans ho.holds.cwd.symm, fun {q} hq => ?_⟩
  by_cases hp : v.loc <+: q
  · obtain ⟨path, rfl⟩ := hp
    obtain ⟨e, he⟩ := Option.ne_none_iff_exists'.mp hq
    rw [he, hadds.get?, if_neg]
    · exact .inl he
    rintro rfl
    have hne : outputLoc rel ≠ [] := by simp [outputLoc]
    rcases (ho.staged hne e).mp he with ⟨d, hd, heq, -⟩ | ⟨rfl, -⟩
    · exact ho.outputLoc_ne hrel ht hd heq.symm
    · exact hadds.free he
  · rw [hu.outside hp, ho.holds.outside hp]

/-- The files in the stage are outputs. -/
theorem isSource (ho : Output rule made v templates root s₀ passed done u s) {content : Bytes}
    (h : u.get? (root ++ rel) = some (.file content)) : IsSource made v root done rel content := by
  by_cases hp : v.loc <+: root ++ rel
  · obtain ⟨path, hpath⟩ := hp
    rw [← hpath] at h
    have hne : path ≠ [] := by
      rintro rfl
      rw [List.append_nil, ho.holds.stage] at h
      cases h
    rcases (ho.staged hne _).mp h with ⟨d, hd, rfl, he⟩ | ⟨he, -⟩
    · exact .inr ⟨d, hd, hpath.symm, Entry.file.inj he⟩
    · cases he
  · exact .inl ((ho.holds.outside hp).symm.trans h)

end Output

/-! ### Steps -/

variable {stage : Path} {n count : Nat} {f : Found} {rest : List Found}

theorem entry_cases (e : Entry) (name : Bytes) :
    e = .dir ∨ (∃ content, e = .file content ∧ isTemplate name = true) ∨
      (e ≠ .dir ∧ ∀ content, e = .file content → isTemplate name = false) := by
  cases e with
  | dir => exact .inl rfl
  | link p => exact .inr (.inr ⟨by simp, by simp⟩)
  | file content =>
    cases ht : isTemplate name with
    | true => exact .inr (.inl ⟨content, rfl, rfl⟩)
    | false => exact .inr (.inr ⟨by simp, fun _ _ => rfl⟩)

theorem walk_dir (h : f.entry = .dir) :
    walk rule stage (n + 1) (f :: rest) count w =
      walk rule stage n ((listed w.tree f.path f.relative).1 ++ rest) count
        { w with journal := w.journal ++ (listed w.tree f.path f.relative).2 } := by
  simp only [walk, h]

theorem walk_pass (hd : f.entry ≠ .dir)
    (h : ∀ content, f.entry = .file content → isTemplate f.name = false) :
    walk rule stage (n + 1) (f :: rest) count w = walk rule stage n rest count w := by
  cases he : f.entry with
  | dir => exact absurd he hd
  | link p => simp only [walk, he]
  | file content => simp [walk, he, h content he]

theorem walk_of_ok {content : Bytes} {w' : World σ} (he : f.entry = .file content)
    (ht : isTemplate f.name = true) (hr : renderFile rule stage f w = (.ok (), w')) :
    walk rule stage (n + 1) (f :: rest) count w = walk rule stage n rest (count + 1) w' := by
  simp only [walk, he, ht, hr, if_true]

theorem walk_of_error {content : Bytes} {failure : Failure} {w' : World σ}
    (he : f.entry = .file content) (ht : isTemplate f.name = true)
    (hr : renderFile rule stage f w = (.error failure, w')) :
    walk rule stage (n + 1) (f :: rest) count w = (.error failure, w') := by
  simp only [walk, he, ht, hr, if_true]

def found (templates : Path) (items : List (Loc × Entry)) : List Found :=
  items.map fun (rel, e) => Found.ofNames templates rel e

/-! What is known of a walk is known after a step. -/

theorem advance_dir (h : Opens t out x v made b)
    (hs : t.status false templates = .ok (root, .dir))
    (hf : Frontier made v templates root w.tree passed ((rel, .dir) :: items))
    (ho : Output rule made v templates root s₀ passed done w.tree w.store) :
    let f := Found.ofNames templates rel .dir
    let items' := entriesIn w.tree templates root rel ++ items
    found templates items' = (listed w.tree f.path f.relative).1 ++ found templates items ∧
      Frontier made v templates root w.tree (passed ++ [rel]) items' ∧
      Output rule made v templates root s₀ (passed ++ [rel]) done w.tree w.store := by
  intro f items'
  have hext := h.extends_of_holds ho.holds
  have hroot := (h.gains.toExtends.trans hext).status hs
  have hdir := hf.here List.mem_cons_self
  refine ⟨?_, hf.expand h ho.holds, ho.pass fun content he => ?_⟩
  · rw [Found.relative_ofNames _ (hf.name List.mem_cons_self).1]
    exact (List.map_append).trans
      (congrArg (· ++ _) (listed_fst _ ho.holds.wellFormed hroot hdir).symm)
  · have hfile := hext.get? (q := root ++ rel) (by simp [he])
    rw [hdir, he] at hfile
    cases hfile

theorem advance_pass (h : Opens t out x v made b) (hd : e ≠ .dir)
    (ht : ∀ content, e = .file content → isTemplate (lastName rel) = false)
    (hf : Frontier made v templates root w.tree passed ((rel, e) :: items))
    (ho : Output rule made v templates root s₀ passed done w.tree w.store) :
    Frontier made v templates root w.tree (passed ++ [rel]) items ∧
      Output rule made v templates root s₀ (passed ++ [rel]) done w.tree w.store := by
  refine ⟨hf.pass h ho.holds hd, ho.pass fun content he => ht content ?_⟩
  have hout : ¬v.loc <+: root ++ rel := fun hp => by
    simp [h.get?_made_eq_none hp] at he
  exact Option.some.inj ((hf.get?_made ho.holds List.mem_cons_self hout).symm.trans he)

theorem advance_template (h : Opens t out x v made b)
    (hs : t.status false templates = .ok (root, .dir)) (ht : isTemplate (lastName rel) = true)
    {content : Bytes} {w' : World σ}
    (hr : renderFile rule x.path (Found.ofNames templates rel (.file content)) w = (.ok (), w'))
    (hf : Frontier made v templates root w.tree passed ((rel, .file content) :: items))
    (ho : Output rule made v templates root s₀ passed done w.tree w.store) :
    ∃ d, Frontier made v templates root w'.tree (passed ++ [rel]) items ∧
      Output rule made v templates root s₀ (passed ++ [rel]) (done ++ [d]) w'.tree w'.store := by
  have hroot := (h.gains.toExtends.trans (h.extends_of_holds ho.holds)).status hs
  have hfile := hf.here List.mem_cons_self
  have hrel : rel ∉ passed := fun hm => Loc.Before.irrefl rel
    ((List.pairwise_append.mp hf.sorted).2.2 rel hm rel List.mem_cons_self)
  obtain ⟨text, output, hread, hw', hstore, hexpand, hadds⟩ :=
    renderFile_ok h ho.holds (hf.name List.mem_cons_self).2 ht hr
  have hsource := (readText_eq_ok_iff ho.holds.wellFormed hroot hfile).mp hread
  have hout := ho.add hrel ht hw' (ho.isSource hfile) hsource hexpand hadds
  exact ⟨⟨rel, text, output⟩,
    (hf.pass h ho.holds (by simp)).mono (ho.extends_of_adds hrel ht hw' hadds), hstore ▸ hout⟩

/-- A step of a walk leads from one list of what it comes to to the next. -/
def Continues (rule : UnsetRule) (stage : Path) (made : FileTree) (v : Way) (templates : Path)
    (root : Loc) (s₀ : σ) (n count : Nat) (items : List (Loc × Entry)) (w : World σ)
    (passed : List Loc) : Prop :=
  ∃ done items' w', Frontier made v templates root w'.tree passed items' ∧
    Output rule made v templates root s₀ passed done w'.tree w'.store ∧
    walk rule stage (n + 1) (found templates items) count w =
      walk rule stage n (found templates items') done.length w'

/-- A step continues the walk, unless it is a template that cannot be rendered. -/
theorem walk_step (h : Opens t out x v made b) (hs : t.status false templates = .ok (root, .dir))
    (hf : Frontier made v templates root w.tree passed ((rel, e) :: items))
    (ho : Output rule made v templates root s₀ passed done w.tree w.store) :
    Continues rule x.path made v templates root s₀ n done.length ((rel, e) :: items) w
        (passed ++ [rel]) ∨
      ∃ content failure w', e = .file content ∧ isTemplate (lastName rel) = true ∧
        renderFile rule x.path (Found.ofNames templates rel e) w = (.error failure, w') ∧
        walk rule x.path (n + 1) (found templates ((rel, e) :: items)) done.length w =
          (.error failure, w') := by
  rcases entry_cases e (lastName rel) with rfl | ⟨content, rfl, ht⟩ | ⟨hd, hno⟩
  · obtain ⟨hitems, hf', ho'⟩ := advance_dir h hs hf ho
    let f := Found.ofNames templates rel .dir
    let w' : World σ := { w with journal := w.journal ++ (listed w.tree f.path f.relative).2 }
    exact .inl ⟨done, _, w', hf', ho', hitems ▸ walk_dir rfl⟩
  · cases hr : renderFile rule x.path (Found.ofNames templates rel (.file content)) w with
    | mk r w' =>
      cases r with
      | error failure =>
        exact .inr ⟨content, failure, w', rfl, ht, rfl, walk_of_error rfl ht hr⟩
      | ok _ =>
        obtain ⟨d, hf', ho'⟩ := advance_template h hs ht hr hf ho
        refine .inl ⟨done ++ [d], items, w', hf', ho', ?_⟩
        rw [List.length_append]
        exact walk_of_ok rfl ht hr
  · obtain ⟨hf', ho'⟩ := advance_pass h hd hno hf ho
    exact .inl ⟨done, items, w, hf', ho', walk_pass hd hno⟩

/-- Where a walk stops: nothing is left, or its steps are used up, or the next template cannot be
rendered. -/
def Stops (rule : UnsetRule) (stage templates : Path) (steps : Nat) (passed : List Loc)
    (done : List Rendered) (items : List (Loc × Entry)) (w : World σ)
    (r : Except Failure Nat × World σ) : Prop :=
  r = (.ok done.length, w) ∧ (items = [] ∨ passed.length = steps) ∨
    ∃ rel content rest failure, items = (rel, .file content) :: rest ∧
      isTemplate (lastName rel) = true ∧ r.1 = .error failure ∧
      renderFile rule stage (Found.ofNames templates rel (.file content)) w = (.error failure, r.2)

/-- The templates that a walk passes are expanded one after another, up to where it stops. -/
theorem walk_stops (h : Opens t out x v made b) (hs : t.status false templates = .ok (root, .dir))
    (n : Nat) (hf : Frontier made v templates root w.tree passed items)
    (ho : Output rule made v templates root s₀ passed done w.tree w.store) :
    ∃ passed' done' items' w', Frontier made v templates root w'.tree passed' items' ∧
      Output rule made v templates root s₀ passed' done' w'.tree w'.store ∧
      Stops rule x.path templates (passed.length + n) passed' done' items' w'
        (walk rule x.path n (found templates items) done.length w) := by
  induction n generalizing passed done items w with
  | zero => exact ⟨passed, done, items, w, hf, ho, .inl ⟨by simp [walk], .inr rfl⟩⟩
  | succ n ih =>
    cases items with
    | nil => exact ⟨passed, done, [], w, hf, ho, .inl ⟨by simp [walk, found], .inl rfl⟩⟩
    | cons i items =>
      obtain ⟨rel, e⟩ := i
      rcases walk_step (n := n) h hs hf ho with
        ⟨done', items', w', hf', ho', hwalk⟩ | ⟨content, failure, w', rfl, ht, hr, hwalk⟩
      · have hend := ih hf' ho'
        rwa [List.length_append, List.length_singleton, Nat.add_assoc, Nat.add_comm 1, ← hwalk]
          at hend
      · exact ⟨passed, done, _, w, hf, ho,
          .inr ⟨rel, content, items, failure, rfl, ht, by rw [hwalk], by rw [hr, hwalk]⟩⟩

end TemplateTree
end EnvTemplate
