import EnvTemplate.Proofs.FileTree.Shape
import EnvTemplate.Proofs.FileTree.Way

/-! Trees that gain something.  Making the directories of a path adds directories on that path and
changes nothing else, also where it fails; what a path leads to before, it leads to after. -/
namespace EnvTemplate

/-- A path or one of the directories that it is in, as they are written. -/
inductive Path.Above : Path → Path → Prop
  | refl (p : Path) : Above p p
  | parent {a q p : Path} (h : p.parent? = some q) (ha : Above a q) : Above a p

theorem Path.Above.names {a p : Path} (h : Above a p) :
    a.names <+: p.names ∧ a.isAbsolute = p.isAbsolute := by
  induction h with
  | refl => exact ⟨List.prefix_refl _, rfl⟩
  | parent h _ ih =>
    obtain ⟨habs, dots, last, more, -, -, hn⟩ := Path.isParent_of_parent? h
    refine ⟨ih.1.trans ?_, ih.2.trans habs⟩
    rw [hn, List.append_assoc]
    exact List.prefix_append _ _

namespace FileTree

variable {t u v : FileTree}

theorem checkPath_eq_ok_iff {p : Path} :
    checkPath p = .ok () ↔ 0 ∉ p ∧ p ≠ [] ∧ p.length ≤ maxPath := by
  unfold checkPath
  by_cases h0 : 0 ∈ p <;> by_cases hp : p = [] <;> by_cases hl : maxPath < p.length <;>
    simp_all

theorem isDir_iff {p : Path} : t.isDir p = true ↔ ∃ loc, t.status false p = .ok (loc, .dir) := by
  unfold isDir
  split
  · next loc h => exact ⟨fun _ => ⟨loc, h⟩, fun _ => rfl⟩
  · next h => simpa using h

/-! ### Trees that have all of another one -/

structure Extends (t u : FileTree) : Prop where
  cwd : u.cwd = t.cwd
  get? {q : Loc} (h : t.get? q ≠ none) : u.get? q = t.get? q

namespace Extends

theorem trans (h : Extends t u) (h' : Extends u v) : Extends t v := by
  refine ⟨h'.cwd.trans h.cwd, fun {q} hq => ?_⟩
  have hu := h.get? hq
  exact (h'.get? (hu ▸ hq)).trans hu

theorem put {loc : Loc} (hne : loc ≠ []) (h : t.get? loc = none) (e : Entry) :
    Extends t (t.put loc e) := by
  refine ⟨rfl, fun {q} hq => ?_⟩
  rw [get?_put hne, if_neg]
  rintro rfl
  exact hq h

theorem leads (h : Extends t u) {n : Nat} {dir loc : Loc} {names : List Bytes} {places : List Loc}
    (hl : Leads t n dir names loc places) : Leads u n dir names loc places :=
  hl.congr fun q hq => h.get? (hl.get?_ne_none q hq)

theorem goes (h : Extends t u) {p : Path} {w : Way} (hg : t.Goes p w) : u.Goes p w :=
  hg.congr h.cwd fun q hq => h.get? (hg.get?_ne_none q hq)

theorem follow (h : Extends t u) {keepLast : Bool} {n : Nat} {dir loc : Loc} {names : List Bytes}
    {e : Entry} (hf : t.follow keepLast n dir names = .ok (.present loc e)) :
    u.follow keepLast n dir names = .ok (.present loc e) := by
  induction n using Nat.strongRecOn generalizing dir names with
  | ind n ihn =>
    induction names generalizing dir with
    | nil => rwa [follow_nil] at hf ⊢
    | cons name names ih =>
      cases firstStep hf with
      | dot hd hf => rw [hd, follow_dot, ih hf]
      | dotDot hd hf => rw [hd, follow_dotDot, ih hf]
      | down hp hl he hf =>
        rw [follow_down hp hl ((h.get? (by simp [he])).trans he), ih hf]
      | link k target hp hl he hn hr hk =>
        subst hn
        rw [follow_link hp hl ((h.get? (by simp [he])).trans he) hr, ihn k (Nat.lt_succ_self k) hk]
      | last hp hl hr he hs =>
        subst hr
        cases hg : t.get? (dir ++ [name]) with
        | none => simp [hg] at hs
        | some e' =>
          obtain ⟨rfl, rfl⟩ : loc = dir ++ [name] ∧ e = e' := by simpa [hg] using hs
          have hu := (h.get? (by simp [hg])).trans hg
          cases e with
          | dir => exact absurd hg he
          | file content =>
            cases n <;> simp [FileTree.follow, descend, hp.1, hp.2, Nat.not_lt.mpr hl, hu]
          | link target =>
            cases keepLast with
            | true => exact follow_last hp hl hu n
            | false =>
              cases n with
              | zero => simp [FileTree.follow, descend, hp.1, hp.2, Nat.not_lt.mpr hl, hg] at hf
              | succ n =>
                rw [follow_link hp hl hg (by simp)] at hf
                rw [follow_link hp hl hu (by simp), ihn n (Nat.lt_succ_self n) hf]

theorem status (h : Extends t u) {keepLast : Bool} {p : Path} {loc : Loc} {e : Entry}
    (hs : t.status keepLast p = .ok (loc, e)) : u.status keepLast p = .ok (loc, e) := by
  rw [status_eq_ok_iff] at hs ⊢
  exact ⟨hs.1, h.cwd ▸ h.follow hs.2⟩

end Extends

theorem leads_of_follow_dir {n : Nat} {dir loc : Loc} {names : List Bytes}
    (h : t.follow false n dir names = .ok (.present loc .dir)) :
    ∃ places, Leads t n dir names loc places := by
  induction n using Nat.strongRecOn generalizing dir names with
  | ind n ihn =>
    induction names generalizing dir with
    | nil =>
      obtain rfl : dir = loc := by simpa [follow_nil] using h
      exact ⟨[], .here n dir⟩
    | cons name names ih =>
      cases firstStep h with
      | dot hd h =>
        obtain ⟨places, hl⟩ := ih h
        exact ⟨places, hd ▸ .dot hl⟩
      | dotDot hd h =>
        obtain ⟨places, hl⟩ := ih h
        exact ⟨places, hd ▸ .dotDot hl⟩
      | down hp hlen he h =>
        obtain ⟨places, hl⟩ := ih h
        exact ⟨_, .down hp hlen he hl⟩
      | link k target hp hlen he hn _ hk =>
        subst hn
        obtain ⟨places, hl⟩ := ihn k (Nat.lt_succ_self k) hk
        exact ⟨_, .link hp hlen he hl⟩
      | last _ _ _ he hs =>
        cases hg : t.get? (dir ++ [name]) with
        | none => simp [hg] at hs
        | some e =>
          obtain ⟨-, rfl⟩ : loc = dir ++ [name] ∧ Entry.dir = e := by simpa [hg] using hs
          exact absurd hg he

theorem leads_of_status {p : Path} {loc : Loc} (h : t.status false p = .ok (loc, .dir)) :
    checkPath p = .ok () ∧ ∃ places, Leads t maxLinks (origin t.cwd p) p.names loc places := by
  obtain ⟨hc, hf⟩ := status_eq_ok_iff.mp h
  obtain ⟨places, hl⟩ := leads_of_follow_dir hf
  refine ⟨hc, ?_⟩
  cases hs : p.endsWithSlash with
  | false => exact ⟨places, by simpa [steps, hs] using hl⟩
  | true =>
    simp only [steps, hs, if_true] at hl
    obtain ⟨m, mid, before, after, -, hb, ha, -⟩ := hl.split
    cases ha with
    | dot ha =>
      cases ha
      exact ⟨before, hb⟩
    | down hp => exact absurd rfl hp.1
    | link hp => exact absurd rfl hp.1

theorem Goes.status_false {p : Path} {w : Way} (h : t.Goes p w) (hs : p.endsWithSlash = false)
    (hl : w.name.length ≤ maxName) {e : Entry} (he : t.get? w.loc = some e)
    (hne : ∀ target, e ≠ .link target) : t.status false p = .ok (w.loc, e) := by
  obtain ⟨names, hn, hlead⟩ := h.leads
  obtain ⟨m, hm⟩ := hlead.follow_append false (List.cons_ne_nil w.name [])
  refine FileTree.status_eq_ok_iff.mpr ⟨h.check, ?_⟩
  simp only [steps, hs, Bool.false_eq_true, if_false, List.append_nil, hn, hm]
  have he' : t.get? (w.dir ++ [w.name]) = some e := he
  cases e with
  | dir => rw [follow_down h.proper hl he', follow_nil, Way.loc]
  | file content =>
    cases m <;> simp [follow, descend, h.proper.1, h.proper.2, Nat.not_lt.mpr hl, he', Way.loc]
  | link target => exact absurd rfl (hne target)

/-! ### Making something -/

theorem create_eq_ok_iff {p : Path} {e : Entry} :
    t.create p e = .ok u ↔ ∃ w, t.Goes p w ∧ w.name.length ≤ maxName ∧ t.get? w.loc = none ∧
      u = t.put w.loc e := by
  constructor
  · intro h
    unfold create at h
    cases hp : t.place p with
    | error e => simp [hp, bind, Except.bind] at h
    | ok place =>
      obtain ⟨dir, last, slash⟩ := place
      simp only [hp, bind, Except.bind] at h
      cases last with
      | dot => simp at h
      | dotDot => simp at h
      | root => simp at h
      | name n =>
        obtain ⟨-, places, hg⟩ := exists_goes_of_place hp
        simp only at h
        split at h
        · cases h
        split at h
        · cases h
        next hl hn =>
          have hn' : t.get? (dir ++ [n]) = none := by simpa using hn
          exact ⟨_, hg, Nat.not_lt.mp hl, hn', (Except.ok.inj h).symm⟩
  · rintro ⟨w, hg, hl, hn, rfl⟩
    unfold Way.loc at hn
    simp [create, hg.place, Nat.not_lt.mpr hl, hn, bind, Except.bind, Way.loc]

theorem Goes.isName {p : Path} {w : Way} (h : t.Goes p w) (hl : w.name.length ≤ maxName) :
    IsName w.name := by
  obtain ⟨names, hn, -⟩ := h.leads
  have hmem : w.name ∈ p.names := by simp [hn]
  refine ⟨Path.mem_names hmem, h.proper, fun h0 => ?_, hl⟩
  have hc := h.check
  simp [checkPath, Path.mem_of_mem_names hmem h0] at hc

theorem WellFormed.get?_origin (h : t.WellFormed) (p : Path) :
    t.get? (origin t.cwd p) = some .dir := by
  unfold origin
  split
  · rfl
  · exact h.cwd

theorem Goes.get?_dir {p : Path} {w : Way} (h : t.Goes p w) (hw : t.WellFormed) :
    t.get? w.dir = some .dir := by
  obtain ⟨_, _, hl⟩ := h.leads
  exact hl.get?_eq_dir hw (hw.get?_origin p)

theorem WellFormed.create (h : t.WellFormed) {p : Path} {e : Entry} (hc : t.create p e = .ok u) :
    u.WellFormed := by
  obtain ⟨w, hg, hl, hn, rfl⟩ := create_eq_ok_iff.mp hc
  exact h.put (hg.get?_dir h) (hg.isName hl) (.inr (by
    have hn' : t.get? (w.dir ++ [w.name]) = none := hn
    simp [hn']))

/-! ### Making directories -/

/-- A place that a path or a directory above it names. -/
def OnPath (t : FileTree) (p : Path) (q : Loc) : Prop :=
  ∃ a w, Path.Above a p ∧ t.Goes a w ∧ w.loc = q

/-- One tree has all that another one has, and further directories on a path. -/
structure Gains (p : Path) (t u : FileTree) : Prop where
  cwd : u.cwd = t.cwd
  get? (q : Loc) : u.get? q = t.get? q ∨
    t.get? q = none ∧ u.get? q = some .dir ∧ u.OnPath p q

namespace Gains

variable {p : Path}

theorem refl (p : Path) (t : FileTree) : Gains p t t := ⟨rfl, fun _ => .inl rfl⟩

theorem toExtends (h : Gains p t u) : Extends t u := by
  refine ⟨h.cwd, fun {q} hq => ?_⟩
  rcases h.get? q with hu | ⟨hn, -⟩
  · exact hu
  · exact absurd hn hq

theorem trans (h : Gains p t u) (h' : Gains p u v) : Gains p t v := by
  refine ⟨h'.cwd.trans h.cwd, fun q => ?_⟩
  rcases h.get? q with hu | ⟨hn, hd, a, w, ha, hg, hloc⟩
  · rw [← hu]
    exact h'.get? q
  · have hv := h'.toExtends.get? (q := q) (by simp [hd])
    exact .inr ⟨hn, hv.trans hd, a, w, ha, h'.toExtends.goes hg, hloc⟩

theorem parent {q : Path} (hq : p.parent? = some q) (h : Gains q t u) : Gains p t u := by
  refine ⟨h.cwd, fun l => (h.get? l).imp_right ?_⟩
  rintro ⟨hn, hd, a, w, ha, hg⟩
  exact ⟨hn, hd, a, w, .parent hq ha, hg⟩

/-- What is gained depends on what stands where only. -/
theorem congr (h : Gains p t u) (hc : v.cwd = u.cwd) (hv : ∀ q, v.get? q = u.get? q) :
    Gains p t v := by
  refine ⟨hc.trans h.cwd, fun q => ?_⟩
  rw [hv]
  refine (h.get? q).imp_right ?_
  rintro ⟨hn, hd, a, w, ha, hg, hloc⟩
  exact ⟨hn, hd, a, w, ha, hg.congr hc fun q _ => hv q, hloc⟩

end Gains

theorem gains_makeDir {p : Path} (h : t.makeDir p = .ok u) : Gains p t u := by
  obtain ⟨w, hg, -, hn, rfl⟩ := create_eq_ok_iff.mp h
  refine ⟨rfl, fun q => ?_⟩
  rw [get?_put w.loc_ne_nil]
  split
  · next heq =>
    refine .inr ⟨heq ▸ hn, rfl, p, w, .refl p, ?_, heq.symm⟩
    exact (Extends.put w.loc_ne_nil hn .dir).goes hg
  · exact .inl rfl

theorem isDir_of_makeDir {p : Path} (h : t.makeDir p = .ok u) : u.isDir p = true := by
  obtain ⟨w, hg, hl, hn, rfl⟩ := create_eq_ok_iff.mp h
  have hgu := (Extends.put w.loc_ne_nil hn .dir).goes hg
  have hd : (t.put w.loc .dir).get? w.loc = some .dir := by
    rw [get?_put w.loc_ne_nil, if_pos rfl]
  have hs : (t.put w.loc .dir).status true p = .ok (w.loc, .dir) :=
    (hgu.status_eq_ok_iff (by simp [hd])).mpr ⟨rfl, hl, hd, fun _ => rfl⟩
  exact isDir_iff.mpr ⟨w.loc, status_false_of_dir hs⟩

/-- What making a directory and those it is in comes to. -/
structure Made (p : Path) (t : FileTree) (r : Except OsError Unit × FileTree) : Prop where
  gains : Gains p t r.2
  wellFormed : t.WellFormed → r.2.WellFormed
  isDir : r.1 = .ok () → p ≠ [] → r.2.isDir p = true

theorem Made.of_makeDir {p : Path} (h : t.makeDir p = .ok u) : Made p t (.ok (), u) :=
  ⟨gains_makeDir h, fun hw => hw.create h, fun _ _ => isDir_of_makeDir h⟩

theorem Made.of_error (p : Path) (t : FileTree) (e : OsError) :
    Made p t (if t.isDir p then .ok () else .error e, t) := by
  refine ⟨.refl p t, id, fun h _ => ?_⟩
  by_cases hd : t.isDir p = true
  · exact hd
  · simp [hd] at h

theorem made_go (n : Nat) (t : FileTree) (p : Path) : Made p t (makeDirs.go n t p) := by
  induction n generalizing p with
  | zero =>
    unfold makeDirs.go
    split
    · next hp => exact ⟨.refl p t, id, fun _ hne => absurd (by simpa using hp) hne⟩
    · split
      · next u hu => exact .of_makeDir hu
      · exact ⟨.refl p t, id, fun h => by cases h⟩
      · exact .of_error p t _
  | succ n ih =>
    unfold makeDirs.go
    split
    · next hp => exact ⟨.refl p t, id, fun _ hne => absurd (by simpa using hp) hne⟩
    · split
      · next u hu => exact .of_makeDir hu
      · split
        · next m q hm hq =>
          obtain rfl : n = m := Nat.succ.inj hm
          have hmade := ih q
          split
          · next u hu =>
            rw [hu] at hmade
            have hgain : Gains p t u := hmade.gains.parent hq
            have hstep : ∀ {r}, Made p u r → Made p t r := fun h =>
              ⟨hgain.trans h.gains, fun hw => h.wellFormed (hmade.wellFormed hw), h.isDir⟩
            split
            · next v hv => exact hstep (.of_makeDir hv)
            · exact hstep (.of_error p u _)
          · next hr =>
            refine ⟨hmade.gains.parent hq, hmade.wellFormed, fun h => ?_⟩
            exact (hr (makeDirs.go n t q).2 (Prod.ext h rfl)).elim
        · exact ⟨.refl p t, id, fun h => by cases h⟩
      · exact .of_error p t _

theorem made_makeDirs (t : FileTree) (p : Path) : Made p t (t.makeDirs p) := made_go p.length t p

/-! ### Writing -/

/-- A file is written to where its path leads, unless a directory is there. -/
theorem write_eq_ok {p : Path} {content : Bytes} (h : t.write p content = .ok u) :
    p.endsWithSlash = false ∧ ∃ s, t.resolve false p = .ok s ∧
      match s with
      | .present loc e => e ≠ .dir ∧ u = t.put loc (.file content)
      | .absent dir name => u = t.put (dir ++ [name]) (.file content) := by
  unfold write at h
  cases hp : t.place p with
  | error e => simp [hp, bind, Except.bind] at h
  | ok place =>
    have hslash : place.slash = p.endsWithSlash := by
      unfold FileTree.place at hp
      cases hc : checkPath p with
      | error e => simp [hc, bind, Except.bind] at hp
      | ok _ =>
        simp only [hc, bind, Except.bind] at hp
        split at hp
        · rw [← Except.ok.inj hp]
        · split at hp
          · cases hp
          · split at hp
            · rw [← Except.ok.inj hp]
            · cases hp
    simp only [hp, bind, Except.bind] at h
    rw [hslash] at h
    split at h
    · cases h
    next hs =>
      refine ⟨Bool.eq_false_iff.mpr hs, ?_⟩
      cases hr : t.resolve false p with
      | error e => simp [hr] at h
      | ok s =>
        refine ⟨s, rfl, ?_⟩
        rw [hr] at h
        cases s with
        | absent dir name => exact (Except.ok.inj h).symm
        | present loc e =>
          cases e with
          | dir => cases h
          | file _ => exact ⟨by simp, (Except.ok.inj h).symm⟩
          | link _ => exact ⟨by simp, (Except.ok.inj h).symm⟩

end FileTree
end EnvTemplate
