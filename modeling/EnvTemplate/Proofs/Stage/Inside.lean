import EnvTemplate.Proofs.Stage.Prepare

/-! What is made inside a stage.  A path that goes on from the path of a stage with proper names leads
into the stage, so directories and files that are made for it change nothing outside the stage. -/
namespace EnvTemplate
namespace Stage

open FileTree

variable {t made b u u' : FileTree} {out p q : Path} {x : Stage} {v : Way} {ns : List Bytes}

theorem Opens.names (h : Opens t out x v made b) : ∃ above, x.path.names = above ++ [v.name] ∧
    Leads made maxLinks [] above v.dir v.places := by
  obtain ⟨above, hn, hl⟩ := h.goes.leads
  rw [origin, h.absolute, if_pos rfl] at hl
  exact ⟨above, hn, hl⟩

theorem Opens.leads (h : Opens t out x v made b) (hu : Holds v made u) :
    ∃ places, Leads u maxLinks [] x.path.names v.loc places := by
  obtain ⟨above, hn, hl⟩ := h.names
  have hl' := hl.congr fun q hq => hu.outside (h.aside hq)
  rw [hn]
  exact ⟨_, hl'.append fun m => .down h.isName.proper h.isName.length hu.stage (.here m _)⟩

theorem Opens.gains_inside (h : Opens t out x v made b) (hu : Holds v made u)
    (hns : ∀ n ∈ ns, IsProper n) (hq : q.names = x.path.names ++ ns) (habs : q.isAbsolute = true)
    (hg : Gains q u u') (hw : u'.WellFormed) :
    Holds v made u' ∧ ∀ p, u'.get? p = u.get? p ∨
      u.get? p = none ∧ u'.get? p = some .dir ∧ ∃ ms, ms <+: ns ∧ p = v.loc ++ ms := by
  have hext := hg.toExtends
  obtain ⟨_, hstage⟩ := h.leads hu
  have hstage' := hext.leads hstage
  have hnolink : ∀ q, v.loc <+: q → ∀ p, u'.get? q ≠ some (.link p) := by
    intro q hq p
    rcases hg.get? q with he | ⟨-, hd, -⟩
    · exact he ▸ hu.noLink hq p
    · simp [hd]
  have hnew : ∀ p, u'.get? p = u.get? p ∨
      u.get? p = none ∧ u'.get? p = some .dir ∧ ∃ ms, ms <+: ns ∧ p = v.loc ++ ms := by
    intro p
    refine (hg.get? p).imp_right ?_
    rintro ⟨hn, hd, a, w, ha, hgo, rfl⟩
    refine ⟨hn, hd, ?_⟩
    obtain ⟨names, hnames, hlead⟩ := hgo.leads
    obtain ⟨hpre, haabs⟩ := ha.names
    rw [origin, haabs, habs, if_pos rfl] at hlead
    rw [hq] at hpre
    rcases List.prefix_or_prefix_of_prefix hpre (List.prefix_append x.path.names ns) with
      ⟨more, hmore⟩ | ⟨ms, hms⟩
    · rw [← hmore, hnames, List.append_assoc] at hstage
      obtain ⟨m, mid, before, after, -, hb, hrest, -⟩ := hstage.split
      obtain rfl := ((hext.leads hb).unique hlead).1
      exact absurd hn (hrest.get?_first_ne_none hgo.proper)
    · rw [← hms] at hpre
      refine ⟨ms, (List.prefix_append_right_inj _).mp hpre, ?_⟩
      have hloc : ∃ places, Leads u' maxLinks [] (x.path.names ++ ms) w.loc places := by
        rw [hms, hnames]
        have hname := hw.isName (d := w.dir) (n := w.name) (by rw [← Way.loc, hd]; simp)
        exact ⟨_, hlead.append fun m => .down hgo.proper hname.length hd (.here m _)⟩
      obtain ⟨_, hloc⟩ := hloc
      refine hstage'.eq_append_of_append hloc (fun n hm => hns n ?_) hnolink
      exact ((List.prefix_append_right_inj _).mp hpre).subset hm
  refine ⟨⟨hw, hg.cwd.trans hu.cwd, ?_, fun {p} hp => ?_, fun {p} hp => hnolink p hp⟩, hnew⟩
  · exact (hext.get? (by simp [hu.stage])).trans hu.stage
  · rcases hnew p with he | ⟨-, -, ms, -, rfl⟩
    · exact he.trans (hu.outside hp)
    · exact absurd (List.prefix_append _ _) hp

theorem Opens.get?_of_isDir (h : Opens t out x v made b) (hu : Holds v made u)
    (hns : ∀ n ∈ ns, IsProper n) (hq : q.names = x.path.names ++ ns) (habs : q.isAbsolute = true)
    (hd : u.isDir q = true) : u.get? (v.loc ++ ns) = some .dir := by
  obtain ⟨loc, hs⟩ := isDir_iff.mp hd
  obtain ⟨-, _, hlead⟩ := leads_of_status hs
  have hdir := hlead.get?_eq_dir hu.wellFormed (hu.wellFormed.get?_origin q)
  rw [origin, habs, if_pos rfl, hq] at hlead
  obtain ⟨_, hstage⟩ := h.leads hu
  obtain rfl := hstage.eq_append_of_append hlead hns fun q => hu.noLink
  exact hdir

/-- A file that is written to a path that goes on from the stage is inside the stage, and its name leads
somewhere new. -/
theorem Opens.write_inside (h : Opens t out x v made b) (hu : Holds v made u)
    (hns : ∀ n ∈ ns, IsProper n) {o : Bytes} (ho : o ≠ Path.dot)
    (hq : q.names = x.path.names ++ ns ++ [o]) (habs : q.isAbsolute = true) {content : Bytes}
    (hw : u.write q content = .ok u') :
    IsName o ∧ u.get? (v.loc ++ ns ++ [o]) ≠ some .dir ∧
      u' = u.put (v.loc ++ ns ++ [o]) (.file content) := by
  obtain ⟨hslash, s, hr, hs⟩ := write_eq_ok hw
  have hc : checkPath q = .ok () := by
    unfold resolve at hr
    cases hc : checkPath q with
    | error e => simp [hc, bind, Except.bind] at hr
    | ok _ => rfl
  have hf : u.follow false maxLinks [] (x.path.names ++ ns ++ [o]) = .ok s := by
    simpa [resolve, hc, bind, Except.bind, origin, habs, steps, hslash, hq] using hr
  obtain ⟨m, dir, places, hlead, hlast⟩ := leads_of_follow (List.cons_ne_nil o []) hf
  obtain ⟨_, hstage⟩ := h.leads hu
  obtain rfl := hstage.eq_append_of_append hlead hns fun q => hu.noLink
  have hmem : o ∈ q.names := by simp [hq]
  have hnul : 0 ∉ o := fun h0 =>
    (checkPath_eq_ok_iff.mp hc).1 (Path.mem_of_mem_names hmem h0)
  cases firstStep hlast with
  | dot hd => exact absurd hd ho
  | dotDot _ hd =>
    rw [follow_nil] at hd
    obtain rfl := Except.ok.inj hd
    exact absurd rfl hs.1
  | down _ _ _ hd =>
    rw [follow_nil] at hd
    obtain rfl := Except.ok.inj hd
    exact absurd rfl hs.1
  | link _ _ _ _ he =>
    exact absurd he (hu.noLink (by simp [List.append_assoc]) _)
  | last hp hl _ hnd hs' =>
    refine ⟨⟨Path.mem_names hmem, hp, hnul, hl⟩, hnd, ?_⟩
    cases he : u.get? (v.loc ++ ns ++ [o]) with
    | none =>
      rw [he] at hs'
      subst hs'
      exact hs
    | some e =>
      rw [he] at hs'
      subst hs'
      exact hs.2

theorem Holds.put (hu : Holds v made u) {o content : Bytes}
    (hdir : u.get? (v.loc ++ ns) = some .dir) (ho : IsName o)
    (hnd : u.get? (v.loc ++ ns ++ [o]) ≠ some .dir) :
    Holds v made (u.put (v.loc ++ ns ++ [o]) (.file content)) := by
  have hne : v.loc ++ ns ++ [o] ≠ [] := by simp
  refine ⟨hu.wellFormed.put hdir ho (.inr hnd), hu.cwd, ?_, fun {q} hq => ?_, fun {q} hq p => ?_⟩
  · rw [get?_put hne, if_neg, hu.stage]
    simp [List.append_assoc]
  · rw [get?_put hne, if_neg, hu.outside hq]
    rintro rfl
    exact hq (by simp [List.append_assoc])
  · rw [get?_put hne]
    split
    · simp
    · exact hu.noLink hq p

end Stage
end EnvTemplate
