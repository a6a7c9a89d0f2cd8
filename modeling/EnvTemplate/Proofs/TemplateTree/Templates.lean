import Mathlib.Data.List.Sort
import EnvTemplate.Proofs.TemplateTree.Listing

/-! The templates of a tree: the files under the directory of the templates whose names end accordingly, in
the order of their places.  A directory whose path is too long cannot be listed, so what is in it does not
count. -/
namespace EnvTemplate

namespace FileTree

/-- Different places with something at them are no more than all places have bytes. -/
theorem length_le_extent {t : FileTree} {ps : List Loc} (hd : ps.Nodup)
    (h : ∀ p ∈ ps, p ≠ [] ∧ t.get? p ≠ none) : ps.length ≤ t.extent := by
  have hsub : ps ⊆ ((t.under []).map Prod.fst).filter (· ≠ []) := by
    intro p hp
    obtain ⟨hne, he⟩ := h p hp
    obtain ⟨e, he⟩ := Option.ne_none_iff_exists'.mp he
    have hmem : (p, e) ∈ t.under [] := mem_under.mpr (by rwa [List.nil_append, getElem?_entries hne])
    exact List.mem_filter.mpr ⟨List.mem_map_of_mem hmem, by simpa using hne⟩
  refine Nat.le_trans (List.subperm_of_subset hd hsub).length_le ?_
  unfold extent
  induction t.under [] with
  | nil => simp
  | cons e es ih =>
    obtain ⟨p, _⟩ := e
    cases p with
    | nil => simpa [width] using ih
    | cons n p =>
      simp only [List.map_cons, List.filter_cons, ne_eq, reduceCtorEq, not_false_eq_true,
        decide_true, if_true, List.length_cons, List.foldr_cons, width] at ih ⊢
      omega

end FileTree

namespace TemplateTree

open FileTree

/-- The templates under a directory, and what is in them. -/
def templatesIn (t : FileTree) (templates : Path) (root : Loc) : List (Loc × Bytes) :=
  (t.under root).filterMap fun (rel, e) =>
    match e with
    | .file content =>
      if isTemplate (lastName rel) ∧ (templates.extend rel.dropLast).length ≤ maxPath then
        some (rel, content)
      else none
    | _ => none

variable {t : FileTree} {templates : Path} {root rel : Loc} {content : Bytes}

theorem ne_nil_of_isTemplate {rel : Loc} (h : isTemplate (lastName rel) = true) : rel ≠ [] := by
  rintro rfl
  revert h
  decide

theorem mem_templatesIn : (rel, content) ∈ templatesIn t templates root ↔
    t.get? (root ++ rel) = some (.file content) ∧ isTemplate (lastName rel) = true ∧
      (templates.extend rel.dropLast).length ≤ maxPath := by
  simp only [templatesIn, List.mem_filterMap, Prod.exists]
  constructor
  · rintro ⟨r, e, hm, h⟩
    split at h
    · next c =>
      simp only [Option.ite_none_right_eq_some, Option.some.injEq, Prod.mk.injEq] at h
      obtain ⟨⟨ht, hl⟩, rfl, rfl⟩ := h
      have hne : root ++ r ≠ [] := by simp [ne_nil_of_isTemplate ht]
      exact ⟨by rw [← getElem?_entries hne, mem_under.mp hm], ht, hl⟩
    · cases h
  · rintro ⟨he, ht, hl⟩
    have hne : root ++ rel ≠ [] := by simp [ne_nil_of_isTemplate ht]
    refine ⟨rel, .file content, mem_under.mpr (by rw [getElem?_entries hne, he]), ?_⟩
    simp [ht, hl]

theorem sorted_templatesIn (t : FileTree) (templates : Path) (root : Loc) :
    (templatesIn t templates root).Pairwise fun a b => Loc.Before a.1 b.1 := by
  unfold templatesIn
  rw [List.pairwise_filterMap]
  refine (sorted_under t root).imp fun {a b} hab x hx y hy => ?_
  have hfst : ∀ {i : Loc × Entry} {j : Loc × Bytes}, (match i.2 with
      | .file content =>
        if isTemplate (lastName i.1) ∧ (templates.extend i.1.dropLast).length ≤ maxPath then
          some (i.1, content)
        else none
      | _ => none) = some j → j.1 = i.1 := by
    intro i j hj
    split at hj
    · split at hj
      · exact (congrArg Prod.fst (Option.some.inj hj)).symm
      · cases hj
    · cases hj
  rw [hfst hx, hfst hy]
  exact hab

end TemplateTree
end EnvTemplate
