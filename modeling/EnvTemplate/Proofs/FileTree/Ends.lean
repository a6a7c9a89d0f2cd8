import EnvTemplate.Proofs.FileTree.Twins

/-! What stands where a path ends.  In a well-formed tree a path leads to nothing but what stands there,
and if links at the end are followed, to no link.  What is above a path is spelled as the path begins. -/
namespace EnvTemplate

namespace Path

theorem Above.isPrefix {a p : Path} (h : Above a p) : a <+: p := by
  induction h with
  | refl => exact List.prefix_refl _
  | parent h _ ih => exact ih.trans (parent?_isPrefix h)

/-- What is above the directory beside a path is the beginning of the path, unless it has no name. -/
theorem Above.isPrefix_of_beside {a p : Path} (h : Above a p.beside) : a <+: p ∨ ∀ n ∈ a.names, n = dot := by
  have hdot : Above a dot → ∀ n ∈ a.names, n = dot := by
    intro ha n hn
    have hnames : Path.names dot = [dot] := by decide
    have hmem := ha.names.1.subset hn
    rwa [hnames, List.mem_singleton] at hmem
  rw [beside] at h
  split at h
  · next hq => exact .inl (h.isPrefix.trans (parent?_isPrefix hq))
  · exact .inr (hdot h)

end Path

namespace FileTree

variable {t u : FileTree} {p : Path} {loc : Loc} {e : Entry}

theorem get?_origin {dir : Loc} (hd : t.get? dir = some .dir) (p : Path) :
    t.get? (origin dir p) = some .dir := by
  unfold origin
  split
  · rfl
  · exact hd

theorem get?_of_follow (hw : t.WellFormed) {keepLast : Bool} {n : Nat} {dir : Loc}
    {names : List Bytes} (hd : t.get? dir = some .dir)
    (h : t.follow keepLast n dir names = .ok (.present loc e)) :
    t.get? loc = some e ∧ (keepLast = false → ∀ target, e ≠ .link target) := by
  induction n using Nat.strongRecOn generalizing dir names with
  | ind n ihn =>
    induction names generalizing dir with
    | nil =>
      obtain ⟨rfl, rfl⟩ : dir = loc ∧ Entry.dir = e := by simpa [follow_nil] using h
      exact ⟨hd, fun _ => by simp⟩
    | cons name names ih =>
      cases firstStep h with
      | dot _ h => exact ih hd h
      | dotDot _ h => exact ih (hw.get?_dropLast hd) h
      | down _ _ he h => exact ih he h
      | link k target _ _ _ hn _ hk =>
        subst hn
        exact ihn k (Nat.lt_succ_self k) (get?_origin hd target) hk
      | last hp hl hr _ hs =>
        subst hr
        cases hg : t.get? (dir ++ [name]) with
        | none => simp [hg] at hs
        | some e' =>
          obtain ⟨rfl, rfl⟩ : loc = dir ++ [name] ∧ e = e' := by simpa [hg] using hs
          refine ⟨hg, ?_⟩
          rintro rfl target rfl
          cases n with
          | zero => simp [follow, descend, hp.1, hp.2, Nat.not_lt.mpr hl, hg] at h
          | succ n =>
            rw [follow_link hp hl hg (by simp)] at h
            exact (ihn n (Nat.lt_succ_self n) (get?_origin hd target) h).2 rfl target rfl

theorem get?_of_status (hw : t.WellFormed) {keepLast : Bool}
    (h : t.status keepLast p = .ok (loc, e)) :
    t.get? loc = some e ∧ (keepLast = false → ∀ target, e ≠ .link target) :=
  get?_of_follow hw (hw.get?_origin p) (status_eq_ok_iff.mp h).2

theorem exists_goes_of_status_name {names : List Bytes} {name : Bytes}
    (h : t.status true p = .ok (loc, e)) (hn : p.names = names ++ [name]) (hp : IsProper name)
    (hs : p.endsWithSlash = false) : ∃ w, t.Goes p w ∧ w.name = name ∧ w.loc = loc := by
  obtain ⟨hc, hf⟩ := status_eq_ok_iff.mp h
  simp only [steps, hs, Bool.false_eq_true, if_false, List.append_nil, hn] at hf
  obtain ⟨m, dir, places, hl, hm⟩ := leads_of_follow (List.cons_ne_nil name []) hf
  have hgoes : t.Goes p ⟨places, dir, name⟩ := ⟨hc, hp, names, hn, hl⟩
  refine ⟨_, hgoes, rfl, ?_⟩
  cases firstStep hm with
  | dot hd => exact absurd hd hp.1
  | dotDot hd => exact absurd hd hp.2
  | down _ _ _ hm =>
    rw [follow_nil] at hm
    cases hm
    rfl
  | link _ _ _ _ _ _ hr => exact absurd rfl (hr rfl)
  | last _ _ _ _ hs =>
    cases hg : t.get? (dir ++ [name]) with
    | none => simp [hg] at hs
    | some e' =>
      obtain ⟨rfl, -⟩ : loc = dir ++ [name] ∧ e = e' := by simpa [hg] using hs
      rfl

end FileTree

end EnvTemplate
