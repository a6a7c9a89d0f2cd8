import EnvTemplate.Proofs.FileTree.Following

/-! Where paths lead.  A path goes some way to a directory and names something there, whether or not it
is there.  The way decides which place an operation looks at and what it finds there. -/
namespace EnvTemplate
namespace FileTree

/-- How a path goes: past some places to a directory, and there to a name. -/
structure Way where
  places : List Loc
  dir : Loc
  name : Bytes

def Way.loc (w : Way) : Loc := w.dir ++ [w.name]

theorem Way.loc_ne_nil (w : Way) : w.loc ≠ [] := by simp [Way.loc]

/-- A path goes a way in a tree. -/
structure Goes (t : FileTree) (p : Path) (w : Way) : Prop where
  check : checkPath p = .ok ()
  proper : IsProper w.name
  leads : ∃ names, p.names = names ++ [w.name] ∧
    Leads t maxLinks (origin t.cwd p) names w.dir w.places

theorem Goes.congr {t u : FileTree} {p : Path} {w : Way} (h : t.Goes p w) (hc : u.cwd = t.cwd)
    (hu : ∀ q ∈ w.places, u.get? q = t.get? q) : u.Goes p w := by
  obtain ⟨names, hn, hl⟩ := h.leads
  exact ⟨h.check, h.proper, names, hn, hc ▸ hl.congr hu⟩

theorem Goes.get?_ne_none {t : FileTree} {p : Path} {w : Way} (h : t.Goes p w) :
    ∀ q ∈ w.places, t.get? q ≠ none := by
  obtain ⟨_, _, hl⟩ := h.leads
  exact hl.get?_ne_none

/-! ### The place that a path names -/

theorem Goes.place {t : FileTree} {p : Path} {w : Way} (h : t.Goes p w) :
    t.place p = .ok ⟨w.dir, .name w.name, p.endsWithSlash⟩ := by
  obtain ⟨names, hn, hl⟩ := h.leads
  obtain ⟨m, hm⟩ := hl.follow_append false (List.cons_ne_nil Path.dot [])
  rw [follow_dot, follow_nil] at hm
  simp [FileTree.place, h.check, hn, hm, h.proper.1, h.proper.2, bind, Except.bind]

theorem exists_goes_of_place {t : FileTree} {p : Path} {dir : Loc} {name : Bytes} {slash : Bool}
    (h : t.place p = .ok ⟨dir, .name name, slash⟩) :
    slash = p.endsWithSlash ∧ ∃ places, t.Goes p ⟨places, dir, name⟩ := by
  unfold FileTree.place at h
  cases hc : checkPath p with
  | error e => simp [hc, bind, Except.bind] at h
  | ok u =>
    rcases List.eq_nil_or_concat p.names with hn | ⟨names, last, hn⟩
    · simp [hc, hn, bind, Except.bind] at h
    simp only [hc, hn, bind, Except.bind, List.concat_eq_append, List.getLast?_append,
      List.getLast?_singleton, Option.some_or, List.dropLast_concat] at h
    cases hf : t.follow false maxLinks (origin t.cwd p) (names ++ [Path.dot]) with
    | error e => simp [hf] at h
    | ok s =>
      cases s with
      | absent _ _ => simp [hf] at h
      | present loc e =>
        obtain ⟨-, places, hl⟩ := leads_of_follow_dot hf
        simp only [hf, Except.ok.injEq, Place.mk.injEq] at h
        obtain ⟨rfl, hlast, rfl⟩ := h
        split at hlast
        · cases hlast
        split at hlast
        · cases hlast
        next hd hdd =>
          obtain rfl : last = name := by simpa using hlast
          exact ⟨rfl, places, hc, ⟨hd, hdd⟩, names, by simpa using hn, hl⟩

/-! ### What a path leads to -/

theorem status_eq_ok_iff {t : FileTree} {keepLast : Bool} {p : Path} {loc : Loc} {e : Entry} :
    t.status keepLast p = .ok (loc, e) ↔ checkPath p = .ok () ∧
      t.follow keepLast maxLinks (origin t.cwd p) (steps p) = .ok (.present loc e) := by
  unfold status resolve
  cases hc : checkPath p with
  | error e => simp [bind, Except.bind]
  | ok u =>
    cases hf : t.follow keepLast maxLinks (origin t.cwd p) (steps p) with
    | error e => simp [bind, Except.bind]
    | ok s => cases s <;> simp [bind, Except.bind]

theorem status_false_of_dir {t : FileTree} {p : Path} {loc : Loc}
    (h : t.status true p = .ok (loc, .dir)) : t.status false p = .ok (loc, .dir) := by
  rw [status_eq_ok_iff] at h ⊢
  exact ⟨h.1, follow_false_of_dir h.2⟩

/-- What a path leads to that goes some way, where a slash at its end is not put after a link. -/
theorem Goes.status_eq_ok_iff {t : FileTree} {p : Path} {w : Way} (h : t.Goes p w)
    (hs : p.endsWithSlash = true → ∀ target, t.get? w.loc ≠ some (.link target)) {loc : Loc}
    {e : Entry} :
    t.status true p = .ok (loc, e) ↔ loc = w.loc ∧ w.name.length ≤ maxName ∧
      t.get? w.loc = some e ∧ (p.endsWithSlash = true → e = .dir) := by
  obtain ⟨names, hn, hl⟩ := h.leads
  rw [FileTree.status_eq_ok_iff]
  simp only [h.check, true_and, steps, hn, List.append_assoc]
  have hne : [w.name] ++ (if p.endsWithSlash = true then [Path.dot] else []) ≠ [] := by simp
  obtain ⟨m, hm⟩ := hl.follow_append true hne
  rw [hm]
  constructor
  · intro hf
    cases firstStep hf with
    | dot hd _ => exact absurd hd h.proper.1
    | dotDot hd _ => exact absurd hd h.proper.2
    | down _ hlen he hf =>
      obtain ⟨hloc, rfl⟩ : w.dir ++ [w.name] = loc ∧ Entry.dir = e := by
        cases hb : p.endsWithSlash <;> simpa [hb, follow_dot, follow_nil] using hf
      exact ⟨hloc.symm, hlen, he, fun _ => rfl⟩
    | link _ target _ _ he _ hr _ =>
      cases hb : p.endsWithSlash with
      | false => simp [hb] at hr
      | true => exact absurd he (hs hb target)
    | last _ hlen hr _ hq =>
      have hb : p.endsWithSlash = false := by simpa using hr
      cases he : t.get? (w.dir ++ [w.name]) with
      | none => simp [he] at hq
      | some e' =>
        obtain ⟨hloc, rfl⟩ : loc = w.dir ++ [w.name] ∧ e = e' := by simpa [he] using hq
        exact ⟨hloc, hlen, he, by simp [hb]⟩
  · rintro ⟨rfl, hlen, he, hdir⟩
    cases hb : p.endsWithSlash with
    | false => exact follow_last h.proper hlen he m
    | true =>
      obtain rfl := hdir hb
      exact (follow_down h.proper hlen he ..).trans ((follow_dot ..).trans (follow_nil ..))

theorem exists_goes_of_status {t : FileTree} {p : Path} {loc : Loc} {e : Entry}
    (h : t.status true p = .ok (loc, e)) (he : e ≠ .dir) :
    p.endsWithSlash = false ∧ ∃ w, t.Goes p w ∧ loc = w.loc := by
  obtain ⟨hc, hf⟩ := FileTree.status_eq_ok_iff.1 h
  cases hb : p.endsWithSlash with
  | true =>
    simp only [steps, hb, if_true] at hf
    exact absurd (leads_of_follow_dot hf).1 he
  | false =>
    simp only [steps, hb, Bool.false_eq_true, if_false, List.append_nil] at hf
    rcases List.eq_nil_or_concat p.names with hn | ⟨names, last, hn⟩
    · simp [hn, follow_nil, he.symm] at hf
    rw [hn, List.concat_eq_append] at hf
    obtain ⟨m, d, places, hl, hm⟩ := leads_of_follow (List.cons_ne_nil _ _) hf
    have hlast : ∀ l : Loc, t.follow true m l [] ≠ .ok (.present loc e) := by
      simp [follow_nil, he.symm]
    cases firstStep hm with
    | dot _ hm => exact absurd hm (hlast _)
    | dotDot _ hm => exact absurd hm (hlast _)
    | down _ _ _ hm => exact absurd hm (hlast _)
    | link _ _ _ _ _ _ hr _ => exact absurd rfl (hr rfl)
    | last hp _ _ _ hs =>
      refine ⟨rfl, ⟨places, d, last⟩, ⟨hc, hp, names, by simpa using hn, hl⟩, ?_⟩
      cases hg : t.get? (d ++ [last]) with
      | none => simp [hg] at hs
      | some e' =>
        obtain ⟨hloc, -⟩ : loc = d ++ [last] ∧ e = e' := by simpa [hg] using hs
        exact hloc

end FileTree
end EnvTemplate
