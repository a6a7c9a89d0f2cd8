import EnvTemplate.Proofs.FileTree.Ends
import EnvTemplate.Proofs.Stage.Opening
import EnvTemplate.Proofs.Stage.Success

/-! A stage in a later tree.  Whatever has become of the tree since a stage was prepared, as long as the
working directory is the same one, the paths of the stage and of its target lead to names in one
directory. -/
namespace EnvTemplate

namespace Stage

open FileTree

variable {t u : FileTree} {target : Path} {x : Stage} {v w : Way}

theorem isProper_stageName (n : Nat) : IsProper (madeUp nameStart n) := by
  have hlen : nameStart.length ≤ (madeUp nameStart n).length := by simp [madeUp]
  refine ⟨fun h => ?_, fun h => ?_⟩ <;> rw [h] at hlen <;> exact absurd hlen (by decide)

theorem exists_eq_of_prepare (h : (prepare t target).1 = .ok x) :
    ∃ n, x = ⟨pathFor t.cwd target n, target⟩ := by
  have hcwd : (t.makeDirs target.beside).2.cwd = t.cwd := (made_makeDirs t target.beside).gains.cwd
  have hpath := path_of_prepare h
  obtain ⟨n, next, hf⟩ := freshBeside_eq (t.makeDirs target.beside).2 target nameStart
  rw [hf, absolute, hcwd] at hpath
  have htarget : x.target = target := by
    cases hm : t.makeDirs target.beside with
    | mk r made =>
      cases r with
      | error e =>
        simp only [prepare, makeParent, hm, mapError_error] at h
        cases h
      | ok _ =>
        simp only [prepare, makeParent, hm, mapError_ok] at h
        split at h <;> cases h
        rfl
  cases x with
  | mk path target' =>
    simp only at hpath htarget
    exact ⟨n, by rw [hpath, htarget, pathFor]⟩

/-- A stage that was prepared, in a tree with the same working directory. -/
structure Lasts (x : Stage) (u : FileTree) : Prop where
  wellFormed : u.WellFormed
  path : ∃ n, x.path = pathFor u.cwd x.target n

theorem lasts_of_prepare (h : (prepare t target).1 = .ok x) (hu : u.WellFormed)
    (hc : u.cwd = t.cwd) : x.target = target ∧ x.Lasts u := by
  obtain ⟨n, rfl⟩ := exists_eq_of_prepare h
  exact ⟨rfl, hu, n, by rw [hc]⟩

namespace Lasts

/-- The stage and its target are in the same directory, and there is one way to it. -/
theorem dir_eq (h : x.Lasts u) (hv : u.Goes x.path v) (hw : u.Goes x.target w) : v.dir = w.dir := by
  obtain ⟨n, hn⟩ := h.path
  rw [hn] at hv
  have hv' : u.Goes ((u.absolute x.target.beside).join (madeUp nameStart n)) v := hv
  obtain ⟨-, places, hl⟩ := hv'.beside h.wellFormed (isPiece_stageName n)
  exact (hl.unique hw.leads_beside).1

theorem names (h : x.Lasts u) : ∃ above name, x.path.names = above ++ [name] ∧ IsProper name ∧
    x.path.endsWithSlash = false := by
  obtain ⟨n, hn⟩ := h.path
  have hp := isPiece_stageName n
  refine ⟨((Path.fromRoot u.cwd).join x.target.beside).names, madeUp nameStart n, ?_,
    isProper_stageName n, ?_⟩
  · rw [hn, pathFor, Path.names_join _ hp.isAbsolute, Path.names_of_not_mem hp.2 hp.1]
  · rw [hn, pathFor, Path.endsWithSlash_join _ hp.1, hp.endsWithSlash]

end Lasts

namespace LinkedOutput

theorem wellFormed_before : before.WellFormed := by
  have hroot : (FileTree.mk ∅ [] 0).WellFormed := .empty 0
  have hd : ((FileTree.mk ∅ [] 0).put [d] .dir).WellFormed :=
    hroot.put (d := []) rfl (by decide) (.inl rfl)
  have hout : (((FileTree.mk ∅ [] 0).put [d] .dir).put [d, out] .dir).WellFormed :=
    hd.put (d := [d]) (by decide +kernel) (by decide) (.inl rfl)
  have hold : ((((FileTree.mk ∅ [] 0).put [d] .dir).put [d, out] .dir).put [d, out, d]
      (.file (Utf8.encode "old".toList))).WellFormed :=
    hout.put (d := [d, out]) (by decide +kernel) (by decide) (.inr (by decide +kernel))
  exact hold.put (d := []) rfl (by decide) (.inr (by decide +kernel))

def staged : FileTree :=
  { (before.put [fresh] .dir).put [fresh, out] (.file (Utf8.encode "new".toList)) with nextName := 1 }

theorem wellFormed_staged : staged.WellFormed := by
  have hstage : (before.put [fresh] .dir).WellFormed :=
    wellFormed_before.put (d := []) rfl (by decide) (.inl rfl)
  exact (hstage.put (d := [fresh]) (by decide +kernel) (by decide) (.inr (by decide +kernel))).congr rfl
    fun _ => rfl

end LinkedOutput
end Stage
end EnvTemplate
