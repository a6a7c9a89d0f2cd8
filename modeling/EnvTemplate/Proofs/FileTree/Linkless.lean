import EnvTemplate.Proofs.FileTree.Growth
import EnvTemplate.Proofs.Path.Parent

/-! Trees without links.  There names without a step up lead straight down, and making the directories of
a path succeeds unless a file stands in the way.  Then there is a directory at each place on the way, and
nothing else is changed. -/
namespace EnvTemplate
namespace FileTree

variable {t u : FileTree} {dir loc : Loc} {ns : List Bytes} {p : Path}

def NoLinks (t : FileTree) : Prop := ∀ q target, t.get? q ≠ some (.link target)

theorem noLinks_empty (n : Nat) : (FileTree.mk ∅ [] n).NoLinks := fun q target => by
  by_cases hq : q = [] <;> simp [get?, hq]

theorem NoLinks.put (h : t.NoLinks) (hne : loc ≠ []) {e : Entry} (he : ∀ target, e ≠ .link target) :
    (t.put loc e).NoLinks := fun q target => by
  rw [get?_put hne]
  split
  · exact fun hl => he target (Option.some.inj hl)
  · exact h q target

/-- The names that lead somewhere: all but the steps to the same directory. -/
def straight (ns : List Bytes) : List Bytes := ns.filter (· ≠ Path.dot)

theorem straight_append (ns ms : List Bytes) : straight (ns ++ ms) = straight ns ++ straight ms :=
  List.filter_append ..

theorem straight_eq (h : ∀ n ∈ ns, IsProper n) : straight ns = ns :=
  List.filter_eq_self.mpr fun n hn => by simpa using (h n hn).1

/-! ### Names that lead straight down -/

theorem exists_leads_straight (hw : t.WellFormed) (hns : ∀ n ∈ ns, n ≠ Path.dotDot)
    (h : t.get? (dir ++ straight ns) = some .dir) :
    ∃ places, (∀ q ∈ places, q <+: dir ++ straight ns) ∧
      ∀ n, Leads t n dir ns (dir ++ straight ns) places := by
  induction ns generalizing dir with
  | nil => exact ⟨[], by simp, fun n => by simpa [straight] using .here n dir⟩
  | cons name ns ih =>
    have hns' : ∀ n ∈ ns, n ≠ Path.dotDot := fun n hn => hns n (List.mem_cons_of_mem name hn)
    by_cases hd : name = Path.dot
    · have he : straight (name :: ns) = straight ns := by simp [straight, hd]
      rw [he] at h ⊢
      obtain ⟨places, hp, hl⟩ := ih hns' h
      exact ⟨places, hp, fun n => hd ▸ .dot (hl n)⟩
    · have he : dir ++ straight (name :: ns) = (dir ++ [name]) ++ straight ns := by
        simp [straight, hd]
      rw [he] at h ⊢
      obtain ⟨places, hp, hl⟩ := ih hns' h
      have hdir : t.get? (dir ++ [name]) = some .dir := by
        by_cases hn : straight ns = []
        · simpa [hn] using h
        · exact hw.above hn (by rw [h]; simp)
      have hname := hw.isName (by simp [hdir] : t.get? (dir ++ [name]) ≠ none)
      refine ⟨(dir ++ [name]) :: places, ?_, fun n => .down hname.proper hname.length hdir (hl n)⟩
      exact List.forall_mem_cons.mpr ⟨List.prefix_append _ _, hp⟩

theorem Leads.eq_straight {n : Nat} {places : List Loc} (h : Leads t n dir ns loc places)
    (hl : t.NoLinks) (hns : ∀ n ∈ ns, n ≠ Path.dotDot) : loc = dir ++ straight ns := by
  induction h with
  | here => simp [straight]
  | dot _ ih =>
    rw [ih fun n hn => hns n (List.mem_cons_of_mem _ hn)]
    simp [straight]
  | dotDot => exact absurd rfl (hns _ List.mem_cons_self)
  | down hp _ _ _ ih =>
    rw [ih fun n hn => hns n (List.mem_cons_of_mem _ hn)]
    simp [straight, hp.1]
  | link _ _ he => exact absurd he (hl _ _)

theorem follow_proper {name : Bytes} (hp : IsProper name)
    (hl : ∀ target, t.get? (dir ++ [name]) ≠ some (.link target)) (keepLast : Bool) (n : Nat)
    (rest : List Bytes) :
    t.follow keepLast n dir (name :: rest) =
      if maxName < name.length then .error .nameTooLong
      else
        match t.get? (dir ++ [name]) with
        | none => if rest.isEmpty then .ok (.absent dir name) else .error .notFound
        | some .dir => t.follow keepLast n (dir ++ [name]) rest
        | some e =>
          if rest.isEmpty then .ok (.present (dir ++ [name]) e) else .error .notDirectory := by
  cases n <;> cases he : t.get? (dir ++ [name]) with
  | none => simp [follow, descend, hp.1, hp.2, he]
  | some e => cases e <;> simp_all [follow, descend, hp.1, hp.2]

/-! ### Making directories -/

theorem Leads.follow_false {n : Nat} {places : List Loc} (h : Leads t n dir ns loc places) :
    t.follow false n dir ns = .ok (.present loc .dir) := by
  induction h with
  | here n dir => exact follow_nil t false n dir
  | dot _ ih => exact (follow_dot ..).trans ih
  | dotDot _ ih => exact (follow_dotDot ..).trans ih
  | down hp hl he _ ih => exact (follow_down hp hl he ..).trans ih
  | link hp hl he _ ih => exact (follow_link hp hl he (fun h => by cases h) _).trans ih

theorem status_of_leads {places : List Loc} (hc : checkPath p = .ok ())
    (h : Leads t maxLinks (origin t.cwd p) p.names loc places) :
    t.status false p = .ok (loc, .dir) := by
  refine status_eq_ok_iff.mpr ⟨hc, ?_⟩
  unfold steps
  split
  · have hd : Leads t maxLinks (origin t.cwd p) (p.names ++ [Path.dot]) loc (places ++ []) :=
      h.append fun m => .dot (.here m loc)
    exact hd.follow_false
  · rw [List.append_nil]
    exact h.follow_false

theorem create_ne_notFound (h : t.isDir p = true) (e : Entry) : t.create p e ≠ .error .notFound := by
  obtain ⟨loc, hs⟩ := isDir_iff.mp h
  obtain ⟨hc, places, hl⟩ := leads_of_status hs
  have hplace : ∃ place, t.place p = .ok place := by
    rcases List.eq_nil_or_concat p.names with hn | ⟨ns, m, hn⟩
    · simp [FileTree.place, hc, hn, bind, Except.bind]
    · rw [List.concat_eq_append] at hn
      rw [hn] at hl
      obtain ⟨_, mid, before, -, -, hb, -, -⟩ := hl.split
      have hd : Leads t maxLinks (origin t.cwd p) (ns ++ [Path.dot]) mid (before ++ []) :=
        hb.append fun m => .dot (.here m mid)
      simp [FileTree.place, hc, hn, hd.follow_false, bind, Except.bind]
  obtain ⟨⟨d, last, slash⟩, hplace⟩ := hplace
  unfold create
  simp only [hplace, bind, Except.bind]
  cases last with
  | name n =>
    simp only
    split
    · simp
    · split <;> simp
  | _ => simp

theorem go_of_isDir (h : t.isDir p = true) (n : Nat) : makeDirs.go n t p = (.ok (), t) := by
  have hne : p.isEmpty = false := by
    obtain ⟨loc, hs⟩ := isDir_iff.mp h
    have hc := (checkPath_eq_ok_iff.mp (leads_of_status hs).1).2.1
    simpa using hc
  have herror : ∃ e, t.makeDir p = .error e ∧ e ≠ .notFound := by
    cases hm : t.makeDir p with
    | error e => exact ⟨e, rfl, fun he => create_ne_notFound h .dir (he ▸ hm)⟩
    | ok u =>
      obtain ⟨w, hg, -, hn, -⟩ := create_eq_ok_iff.mp hm
      obtain ⟨ns, hnames, hlead⟩ := hg.leads
      obtain ⟨loc, hs⟩ := isDir_iff.mp h
      obtain ⟨-, places, hl⟩ := leads_of_status hs
      rw [hnames] at hl
      obtain ⟨_, mid, _, _, -, hb, ha, -⟩ := hl.split
      obtain rfl := (hb.unique hlead).1
      exact absurd hn (ha.get?_first_ne_none hg.proper)
  obtain ⟨e, hm, he⟩ := herror
  unfold makeDirs.go
  rw [hne, if_neg Bool.false_ne_true, hm]
  cases e <;> first | exact absurd rfl he | simp [h]

theorem makeDirs_of_isDir (h : t.isDir p = true) : t.makeDirs p = (.ok (), t) :=
  go_of_isDir h p.length

/-- A relative path without steps that lead nowhere new, which the system takes. -/
structure IsPlain (p : Path) : Prop where
  isAbsolute : p.isAbsolute = false
  nul : 0 ∉ p
  length : p.length ≤ maxPath
  isName : ∀ n ∈ p.names, IsName n

theorem IsPlain.parent {q : Path} {m : Bytes} (h : IsPlain p) (hq : p.parent? = some q)
    (hn : p.names = ns ++ [m]) : IsPlain q ∧ q.names = ns := by
  have hmem : ∀ n ∈ p.names, n ≠ Path.dot := fun n hn => (h.isName n hn).proper.1
  have hpre := Path.parent?_isPrefix hq
  have hparent := Path.isParent_of_parent? hq
  obtain ⟨dots, hdots, he⟩ := hparent.exists_dots hn (hmem m (by simp [hn]))
  have hnone : dots = [] := by
    cases dots with
    | nil => rfl
    | cons d dots => exact absurd (hdots d List.mem_cons_self) (hmem d (by simp [hn, he]))
  rw [hnone, List.append_nil] at he
  refine ⟨⟨hparent.isAbsolute.trans h.isAbsolute, fun h0 => h.nul (hpre.subset h0), ?_, fun n hn' => ?_⟩,
    he.symm⟩
  · exact Nat.le_trans hpre.length_le h.length
  · exact h.isName n (by simp [hn, he, hn'])

theorem IsPlain.checkPath (h : IsPlain p) (hp : p ≠ []) : checkPath p = .ok () :=
  checkPath_eq_ok_iff.mpr ⟨h.nul, hp, h.length⟩

theorem IsPlain.isDir (h : IsPlain p) (hw : t.WellFormed) (hp : p ≠ [])
    (hd : t.get? (t.cwd ++ p.names) = some .dir) : t.isDir p = true := by
  have hproper : ∀ n ∈ p.names, IsProper n := fun n hn => (h.isName n hn).proper
  rw [← straight_eq hproper] at hd
  obtain ⟨places, -, hl⟩ := exists_leads_straight hw (fun n hn => (hproper n hn).2) hd
  have horigin : origin t.cwd p = t.cwd := by simp [origin, h.isAbsolute]
  exact isDir_iff.mpr ⟨_, status_of_leads (h.checkPath hp) (horigin ▸ hl maxLinks)⟩

theorem IsPlain.goes {m : Bytes} (h : IsPlain p) (hw : t.WellFormed) (hn : p.names = ns ++ [m])
    (hd : t.get? (t.cwd ++ ns) = some .dir) :
    ∃ places, (∀ q ∈ places, q <+: t.cwd ++ ns) ∧ t.Goes p ⟨places, t.cwd ++ ns, m⟩ := by
  have hproper : ∀ n ∈ p.names, IsProper n := fun n hn => (h.isName n hn).proper
  have hns : ∀ n ∈ ns, IsProper n := fun n hm => hproper n (by simp [hn, hm])
  have hp : p ≠ [] := by
    rintro rfl
    simp at hn
  rw [← straight_eq hns] at hd ⊢
  obtain ⟨places, hpre, hl⟩ := exists_leads_straight hw (fun n hm => (hns n hm).2) hd
  refine ⟨places, hpre, h.checkPath hp, hproper m (by simp [hn]), ns, hn, ?_⟩
  rw [origin, h.isAbsolute, if_neg Bool.false_ne_true]
  exact hl maxLinks

theorem IsPlain.status (h : IsPlain p) (hw : t.WellFormed) (hl : t.NoLinks) (hp : p ≠ [])
    (hd : t.get? (t.cwd ++ p.names) = some .dir) : t.status true p = .ok (t.cwd ++ p.names, .dir) := by
  obtain ⟨ns, m, hn⟩ := (List.eq_nil_or_concat p.names).resolve_left (Path.names_ne_nil hp h.isAbsolute)
  rw [List.concat_eq_append] at hn
  rw [hn, ← List.append_assoc] at hd ⊢
  have hm : IsName m := h.isName m (by simp [hn])
  obtain ⟨places, -, hg⟩ := h.goes hw hn (hw.parent (by rw [hd]; simp))
  exact (hg.status_eq_ok_iff fun _ target => hl _ target).mpr ⟨rfl, hm.length, hd, fun _ => rfl⟩

theorem follow_of_missing (hl : t.NoLinks) (hns : ∀ n ∈ ns, IsName n)
    (hway : ∀ q, q <+: dir ++ ns → t.get? q = none ∨ t.get? q = some .dir)
    (hmiss : t.get? (dir ++ ns) = none) (hdir : t.get? dir = some .dir) (n : Nat) :
    t.follow false n dir (ns ++ [Path.dot]) = .error .notFound := by
  induction ns generalizing dir with
  | nil => simp [hdir] at hmiss
  | cons m ns ih =>
    have hm := hns m List.mem_cons_self
    have hlen : ¬maxName < m.length := Nat.not_lt.mpr hm.length
    rw [List.cons_append, follow_proper hm.proper (hl _), if_neg hlen]
    have hassoc : dir ++ m :: ns = (dir ++ [m]) ++ ns := by simp
    rw [hassoc] at hway hmiss
    rcases hway (dir ++ [m]) (List.prefix_append _ _) with hd | hd
    · simp [hd]
    · simp only [hd]
      exact ih (fun n hn => hns n (List.mem_cons_of_mem m hn)) hway hmiss hd

theorem makeDir_of_missing {m : Bytes} (h : IsPlain p) (hw : t.WellFormed) (hl : t.NoLinks)
    (hn : p.names = ns ++ [m])
    (hway : ∀ q, q <+: t.cwd ++ ns → t.get? q = none ∨ t.get? q = some .dir)
    (hmiss : t.get? (t.cwd ++ ns) = none) : t.makeDir p = .error .notFound := by
  have hp : p ≠ [] := by
    rintro rfl
    simp at hn
  have hns : ∀ n ∈ ns, IsName n := fun n hm => h.isName n (by simp [hn, hm])
  have hf := follow_of_missing hl hns hway hmiss hw.cwd maxLinks
  simp [makeDir, create, FileTree.place, h.checkPath hp, hn, origin, h.isAbsolute, hf, bind, Except.bind]

theorem makeDir_of_parent {m : Bytes} (h : IsPlain p) (hw : t.WellFormed) (hn : p.names = ns ++ [m])
    (hd : t.get? (t.cwd ++ ns) = some .dir) (hnone : t.get? (t.cwd ++ ns ++ [m]) = none) :
    ∃ u, t.makeDir p = .ok u := by
  obtain ⟨places, -, hg⟩ := h.goes hw hn hd
  have hm : IsName m := h.isName m (by simp [hn])
  exact ⟨_, create_eq_ok_iff.mpr ⟨_, hg, hm.length, hnone, rfl⟩⟩

/-- What is gained by making the directories of a path without a step up is on the way straight down. -/
theorem Gains.get?_straight (h : Gains p t u) (hl : u.NoLinks) (hns : ∀ n ∈ p.names, n ≠ Path.dotDot)
    (habs : p.isAbsolute = false) (q : Loc) :
    u.get? q = t.get? q ∨
      t.get? q = none ∧ u.get? q = some .dir ∧ q <+: t.cwd ++ straight p.names := by
  refine (h.get? q).imp_right ?_
  rintro ⟨hn, hd, a, w, ha, hg, rfl⟩
  refine ⟨hn, hd, ?_⟩
  obtain ⟨hpre, haabs⟩ := ha.names
  obtain ⟨names, hnames, hlead⟩ := hg.leads
  have hmem : ∀ n ∈ names, n ≠ Path.dotDot := fun n hm => hns n (hpre.subset (by simp [hnames, hm]))
  have horigin : origin u.cwd a = t.cwd := by simp [origin, haabs, habs, h.cwd]
  rw [horigin] at hlead
  have hdir := hlead.eq_straight hl hmem
  obtain ⟨rest, hrest⟩ := hpre
  have hname : straight [w.name] = [w.name] := by simp [straight, hg.proper.1]
  rw [Way.loc, hdir, ← hrest, hnames, straight_append, straight_append, hname]
  simp

theorem NoLinks.gains (hl : t.NoLinks) (h : Gains p t u) : u.NoLinks := by
  intro q target he
  rcases h.get? q with hu | ⟨-, hd, -⟩
  · exact hl q target (hu ▸ he)
  · rw [hd] at he
    cases he

theorem Made.status (h : Made p t (.ok (), u)) (hw : t.WellFormed) (hl : t.NoLinks)
    (hns : ∀ n ∈ p.names, n ≠ Path.dotDot) (habs : p.isAbsolute = false) (hp : p ≠ []) :
    u.status false p = .ok (t.cwd ++ straight p.names, .dir) ∧
      u.get? (t.cwd ++ straight p.names) = some .dir := by
  have hul : u.NoLinks := hl.gains h.gains
  have huw : u.WellFormed := h.wellFormed hw
  have hcwd : u.cwd = t.cwd := h.gains.cwd
  obtain ⟨loc, hs⟩ := isDir_iff.mp (h.isDir rfl hp)
  obtain ⟨-, places, hlead⟩ := leads_of_status hs
  have horigin : origin u.cwd p = t.cwd := by simp [origin, habs, hcwd]
  have hloc : loc = t.cwd ++ straight p.names := horigin ▸ hlead.eq_straight hul hns
  exact ⟨hloc ▸ hs, hloc ▸ hlead.get?_eq_dir huw (huw.get?_origin p)⟩

/-- Where the directories of a path have been made, there is one at each place on the way that was free,
and nothing else has changed. -/
theorem Made.get?_straight (h : Made p t (.ok (), u)) (hw : t.WellFormed) (hl : t.NoLinks)
    (hns : ∀ n ∈ p.names, n ≠ Path.dotDot) (habs : p.isAbsolute = false) (hp : p ≠ []) (q : Loc) :
    u.get? q =
      if t.get? q = none ∧ q <+: t.cwd ++ straight p.names then some .dir else t.get? q := by
  obtain ⟨-, hd⟩ := h.status hw hl hns habs hp
  split
  · next hq =>
    obtain ⟨rest, hrest⟩ := hq.2
    by_cases hr : rest = []
    · rw [← hd, ← hrest, hr, List.append_nil]
    · exact (h.wellFormed hw).above hr (by rw [hrest, hd]; simp)
  · next hq =>
    rcases h.gains.get?_straight (hl.gains h.gains) hns habs q with he | ⟨hn, -, hpre⟩
    · exact he
    · exact absurd ⟨hn, hpre⟩ hq

theorem go_nil (n : Nat) (t : FileTree) : makeDirs.go n t [] = (.ok (), t) := by
  unfold makeDirs.go
  rfl

def makeLast (t : FileTree) (p : Path) : Except OsError Unit × FileTree :=
  match t.makeDir p with
  | .ok u => (.ok (), u)
  | .error e => (if t.isDir p then .ok () else .error e, t)

theorem go_of_error {e : OsError} (hp : p ≠ []) (h : t.makeDir p = .error e) (he : e ≠ .notFound)
    (n : Nat) : makeDirs.go n t p = t.makeLast p := by
  have hempty : p.isEmpty = false := by simpa using hp
  unfold makeDirs.go makeLast
  rw [hempty, if_neg Bool.false_ne_true, h]
  cases e <;> first | rfl | exact absurd rfl he

theorem go_zero_of_notFound (hp : p ≠ []) (h : t.makeDir p = .error .notFound) :
    makeDirs.go 0 t p = (.error .notFound, t) := by
  have hempty : p.isEmpty = false := by simpa using hp
  unfold makeDirs.go
  rw [hempty, if_neg Bool.false_ne_true, h]

theorem go_of_notFound {q : Path} (hp : p ≠ []) (h : t.makeDir p = .error .notFound)
    (hq : p.parent? = some q) (n : Nat) :
    makeDirs.go (n + 1) t p =
      match makeDirs.go n t q with
      | (.ok (), u) => u.makeLast p
      | failed => failed := by
  have hempty : p.isEmpty = false := by simpa using hp
  conv => lhs; unfold makeDirs.go
  rw [hempty, if_neg Bool.false_ne_true, h, hq]
  rfl

theorem go_of_ok (hp : p ≠ []) (h : t.makeDir p = .ok u) (n : Nat) : makeDirs.go n t p = (.ok (), u) := by
  have hempty : p.isEmpty = false := by simpa using hp
  unfold makeDirs.go
  rw [hempty, if_neg Bool.false_ne_true, h]

theorem Made.makeDir_last {q : Path} {m : Bytes} (hmade : Made q t (.ok (), u)) (hw : t.WellFormed)
    (hl : t.NoLinks) (h : IsPlain p) (hq : IsPlain q) (hqne : q ≠ []) (hn : p.names = q.names ++ [m])
    (hnone : t.get? (t.cwd ++ q.names ++ [m]) = none) : ∃ v, u.makeDir p = .ok v := by
  have hproper : ∀ n ∈ q.names, IsProper n := fun n hn => (hq.isName n hn).proper
  have hnoUp : ∀ n ∈ q.names, n ≠ Path.dotDot := fun n hn => (hproper n hn).2
  have hcwd := hmade.gains.cwd
  have hget := hmade.get?_straight hw hl hnoUp hq.isAbsolute hqne
  obtain ⟨-, hd⟩ := hmade.status hw hl hnoUp hq.isAbsolute hqne
  rw [straight_eq hproper] at hget hd
  have hnone' : u.get? (t.cwd ++ q.names ++ [m]) = none := by
    rw [hget, if_neg, hnone]
    rintro ⟨-, hpre⟩
    have hlen := hpre.length_le
    rw [List.length_append, List.length_singleton] at hlen
    omega
  rw [← hcwd] at hd hnone'
  exact makeDir_of_parent h (hmade.wellFormed hw) hn hd hnone'

/-- The directories of a plain path can be made unless something else stands in the way. -/
theorem go_of_plain (hw : t.WellFormed) (hl : t.NoLinks) (h : IsPlain p)
    (hway : ∀ q, q <+: t.cwd ++ p.names → t.get? q = none ∨ t.get? q = some .dir) {n : Nat}
    (hn : p.names.length ≤ n) : (makeDirs.go n t p).1 = .ok () := by
  induction n generalizing p with
  | zero =>
    have hnil : p.names = [] := List.eq_nil_of_length_eq_zero (by omega)
    have hp : p = [] := Classical.byContradiction fun hp => Path.names_ne_nil hp h.isAbsolute hnil
    rw [hp, go_nil]
  | succ n ih =>
    by_cases hp : p = []
    · rw [hp, go_nil]
    rcases hway _ (List.prefix_refl _) with hnone | hdir
    · obtain ⟨ns, m, hnames⟩ :=
        (List.eq_nil_or_concat p.names).resolve_left (Path.names_ne_nil hp h.isAbsolute)
      rw [List.concat_eq_append] at hnames
      have hloc : t.cwd ++ p.names = t.cwd ++ ns ++ [m] := by rw [hnames, List.append_assoc]
      rw [hloc] at hnone hway
      have hway' : ∀ q, q <+: t.cwd ++ ns → t.get? q = none ∨ t.get? q = some .dir :=
        fun q hq => hway q (hq.trans (List.prefix_append _ _))
      rcases hway' _ (List.prefix_refl _) with hmiss | hparent
      · obtain ⟨q, hq⟩ := Path.exists_parent? (p := p) (n := m) (by simp [hnames])
          (h.isName m (by simp [hnames])).proper.1
        obtain ⟨hqplain, rfl⟩ := h.parent hq hnames
        have hlen : q.names.length ≤ n := by
          have hlen := congrArg List.length hnames
          rw [List.length_append, List.length_singleton] at hlen
          omega
        have hqne : q ≠ [] := by
          rintro rfl
          rw [Path.names_nil, List.append_nil, hw.cwd] at hmiss
          cases hmiss
        have hok := ih hqplain hway' hlen
        have hmade := made_go n t q
        rw [go_of_notFound hp (makeDir_of_missing h hw hl hnames hway' hmiss) hq]
        cases hu : makeDirs.go n t q with
        | mk r u =>
          rw [hu] at hok hmade
          obtain rfl : r = .ok () := hok
          obtain ⟨v, hv⟩ := hmade.makeDir_last hw hl h hqplain hqne hnames hnone
          simp only [makeLast, hv]
      · obtain ⟨u, hu⟩ := makeDir_of_parent h hw hnames hparent hnone
        rw [go_of_ok hp hu]
    · exact congrArg Prod.fst (go_of_isDir (h.isDir hw hp hdir) (n + 1))

theorem makeDirs_of_plain (hw : t.WellFormed) (hl : t.NoLinks) (h : IsPlain p)
    (hway : ∀ q, q <+: t.cwd ++ p.names → t.get? q = none ∨ t.get? q = some .dir) :
    (t.makeDirs p).1 = .ok () :=
  go_of_plain hw hl h hway (Path.length_names_le p)

/-! ### Numbers of made-up names -/

theorem nextName_create {e : Entry} (h : t.create p e = .ok u) : u.nextName = t.nextName := by
  obtain ⟨w, -, -, -, rfl⟩ := create_eq_ok_iff.mp h
  rfl

theorem nextName_go (n : Nat) (t : FileTree) (p : Path) :
    (makeDirs.go n t p).2.nextName = t.nextName := by
  induction n generalizing p with
  | zero =>
    unfold makeDirs.go
    split
    · rfl
    · split
      · next hu => exact nextName_create hu
      · rfl
      · rfl
  | succ n ih =>
    unfold makeDirs.go
    split
    · rfl
    · split
      · next hu => exact nextName_create hu
      · split
        · next m q hm _ =>
          obtain rfl : n = m := Nat.succ.inj hm
          have hq := ih q
          split
          · next u hu =>
            rw [hu] at hq
            split
            · next hv => exact (nextName_create hv).trans hq
            · exact hq
          · exact hq
        · rfl
      · rfl

end FileTree
end EnvTemplate
