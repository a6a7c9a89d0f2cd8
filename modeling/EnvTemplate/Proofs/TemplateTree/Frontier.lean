import EnvTemplate.Proofs.Stage.Prepare
import EnvTemplate.Proofs.TemplateTree.Listing

/-! How far a walk has come.  What it has passed comes before what it has still to come to, and nothing
that can be listed is missed: it was passed, or it is below something that the walk has to come to. -/
namespace EnvTemplate
namespace TemplateTree

open FileTree Stage

/-- What a walk has passed and what it has to come to, in a tree with a stage in it. -/
structure Frontier (made : FileTree) (v : Way) (templates : Path) (root : Loc) (u : FileTree)
    (passed : List Loc) (items : List (Loc × Entry)) : Prop where
  sorted : (passed ++ items.map Prod.fst).Pairwise Loc.Before
  apart : (items.map Prod.fst).Pairwise fun a b => ¬a <+: b
  name {i : Loc × Entry} (h : i ∈ items) : i.1 ≠ [] ∧ ∀ n ∈ i.1, IsName n
  here {i : Loc × Entry} (h : i ∈ items) : u.get? (root ++ i.1) = some i.2
  listable {i : Loc × Entry} (h : i ∈ items) : (templates.extend i.1.dropLast).length ≤ maxPath
  seen {rel : Loc} (h : rel ∈ passed) : rel ≠ [] ∧
    (templates.extend rel.dropLast).length ≤ maxPath ∧
    (¬v.loc <+: root ++ rel → made.get? (root ++ rel) ≠ none)
  covered {rel : Loc} (hne : rel ≠ []) (he : made.get? (root ++ rel) ≠ none)
    (hl : (templates.extend rel.dropLast).length ≤ maxPath) :
    rel ∈ passed ∨ ∃ i ∈ items, i.1 <+: rel

variable {t made b u u' : FileTree} {out templates : Path} {x : Stage} {v : Way} {root rel : Loc}
  {passed : List Loc} {items : List (Loc × Entry)} {e : Entry}

theorem length_extend_le (templates : Path) {a b : Loc} (h : a <+: b) (hb : ∀ n ∈ b, IsName n) :
    (templates.extend a).length ≤ (templates.extend b).length := by
  obtain ⟨c, rfl⟩ := h
  rw [Path.extend_append]
  exact (Path.prefix_extend _ fun n hn => (hb n (List.mem_append_right a hn)).piece).length_le

theorem sorted_expand {passed below rest : List Loc}
    (h : (passed ++ rel :: rest).Pairwise Loc.Before) (hb : below.Pairwise Loc.Before)
    (hr : ∀ b ∈ below, Loc.Before rel b ∧ ∀ r ∈ rest, Loc.Before b r) :
    (passed ++ [rel] ++ (below ++ rest)).Pairwise Loc.Before := by
  obtain ⟨hpassed, hitems, hcross⟩ := List.pairwise_append.mp h
  obtain ⟨hafter, hrest⟩ := List.pairwise_cons.mp hitems
  rw [List.append_assoc, List.singleton_append]
  refine List.pairwise_append.mpr ⟨hpassed, List.pairwise_cons.mpr ⟨fun a ha => ?_, ?_⟩, ?_⟩
  · rcases List.mem_append.mp ha with ha | ha
    · exact (hr a ha).1
    · exact hafter a ha
  · exact List.pairwise_append.mpr ⟨hb, hrest, fun a ha => (hr a ha).2⟩
  · intro p hp a ha
    have hrel := hcross p hp rel List.mem_cons_self
    rcases List.mem_cons.mp ha with rfl | ha
    · exact hrel
    rcases List.mem_append.mp ha with ha | ha
    · exact hrel.trans (hr a ha).1
    · exact hcross p hp a (List.mem_cons_of_mem rel ha)

namespace Frontier

theorem of_mem_entriesIn (hw : u.WellFormed) (hrel : ∀ n ∈ rel, IsName n) {i : Loc × Entry}
    (hi : i ∈ entriesIn u templates root rel) :
    (i.1 ≠ [] ∧ ∀ n ∈ i.1, IsName n) ∧ (∃ s, s ≠ [] ∧ i.1 = rel ++ s) ∧
      u.get? (root ++ i.1) = some i.2 ∧ (templates.extend i.1.dropLast).length ≤ maxPath := by
  obtain ⟨r, e⟩ := i
  obtain ⟨hl, name, rfl, he⟩ := mem_entriesIn.mp hi
  refine ⟨⟨by simp, fun n hn => ?_⟩, ⟨[name], by simp, rfl⟩, he, by simpa using hl⟩
  rcases List.mem_append.mp hn with hn | hn
  · exact hrel n hn
  · obtain rfl := List.mem_singleton.mp hn
    refine hw.isName (d := root ++ rel) ?_
    rw [List.append_assoc, he]
    simp

theorem apart_entriesIn (u : FileTree) (templates : Path) (root rel : Loc) :
    ((entriesIn u templates root rel).map Prod.fst).Pairwise fun a b => ¬a <+: b := by
  rw [List.pairwise_map]
  refine List.Pairwise.imp_of_mem (fun {a b} ha hb hab hp => ?_)
    (sorted_entriesIn u templates root rel)
  obtain ⟨-, n, hn, -⟩ := mem_entriesIn.mp ha
  obtain ⟨-, m, hm, -⟩ := mem_entriesIn.mp hb
  refine hab.ne (hp.eq_of_length ?_)
  simp [hn, hm]

/-- Whatever is below a directory is below something that is found in the directory, unless the path of
what it is in is too long. -/
theorem exists_mem_entriesIn (h : Opens t out x v made b) (hu : Holds v made u) {n : Bytes} {s : Loc}
    (he : made.get? (root ++ (rel ++ n :: s)) ≠ none)
    (hl : (templates.extend (rel ++ n :: s).dropLast).length ≤ maxPath) :
    ∃ i ∈ entriesIn u templates root rel, i.1 <+: rel ++ n :: s := by
  have hn : made.get? (root ++ (rel ++ [n])) ≠ none :=
    h.wellFormed.get?_ne_none_of_prefix (b := root ++ (rel ++ n :: s)) (by simp) he
  have hn' := (h.extends_of_holds hu).get? hn
  obtain ⟨e, he'⟩ := Option.ne_none_iff_exists'.mp (hn' ▸ hn)
  refine ⟨(rel ++ [n], e), mem_entriesIn.mpr ⟨?_, n, rfl, he'⟩, by simp⟩
  refine Nat.le_trans (length_extend_le templates ?_ fun m hm => ?_) hl
  · rw [List.dropLast_append_of_ne_nil (List.cons_ne_nil n s)]
    exact List.prefix_append _ _
  · exact h.wellFormed.isName_of_mem (a := root) he (List.dropLast_subset _ hm)

theorem start (h : Opens t out x v made b) (templates : Path) (root : Loc) :
    Frontier made v templates root b [] (entriesIn b templates root []) := by
  have hb := h.holds
  have hmem : ∀ {i}, i ∈ entriesIn b templates root [] → _ := fun {i} hi =>
    of_mem_entriesIn hb.wellFormed (by simp) hi
  refine ⟨?_, apart_entriesIn .., fun hi => (hmem hi).1, fun hi => (hmem hi).2.2.1,
    fun hi => (hmem hi).2.2.2, by simp, fun {rel} hne he hl => ?_⟩
  · rw [List.nil_append, List.pairwise_map]
    exact sorted_entriesIn b templates root []
  · obtain ⟨n, rest, rfl⟩ := List.exists_cons_of_ne_nil hne
    exact .inr (exists_mem_entriesIn h hb (show made.get? (root ++ ([] ++ n :: rest)) ≠ none from he) hl)

theorem get?_made (hf : Frontier made v templates root u passed items) (hu : Holds v made u)
    {i : Loc × Entry} (hi : i ∈ items) (ho : ¬v.loc <+: root ++ i.1) :
    made.get? (root ++ i.1) = some i.2 :=
  (hu.outside ho).symm.trans (hf.here hi)

section Step

variable (hu : Holds v made u) (hf : Frontier made v templates root u passed ((rel, e) :: items))
include hu hf

theorem seen_next {r : Loc} (hr : r ∈ passed ++ [rel]) : r ≠ [] ∧
    (templates.extend r.dropLast).length ≤ maxPath ∧
    (¬v.loc <+: root ++ r → made.get? (root ++ r) ≠ none) := by
  rcases List.mem_append.mp hr with hr | hr
  · exact hf.seen hr
  · obtain rfl := List.mem_singleton.mp hr
    refine ⟨(hf.name List.mem_cons_self).1, hf.listable List.mem_cons_self, fun ho => ?_⟩
    simp [hf.get?_made hu List.mem_cons_self ho]

omit hu in
/-- Once the next item is passed, what it covered is below it. -/
theorem covered_next {r : Loc} (hne : r ≠ []) (he : made.get? (root ++ r) ≠ none)
    (hl : (templates.extend r.dropLast).length ≤ maxPath) :
    r ∈ passed ++ [rel] ∨ (∃ n s, r = rel ++ n :: s) ∨ ∃ i ∈ items, i.1 <+: r := by
  rcases hf.covered hne he hl with hp | ⟨i, hi, hp⟩
  · exact .inl (List.mem_append_left _ hp)
  rcases List.mem_cons.mp hi with rfl | hi
  · obtain ⟨s, rfl⟩ := hp
    cases s with
    | nil => exact .inl (by simp)
    | cons n s => exact .inr (.inl ⟨n, s, rfl⟩)
  · exact .inr (.inr ⟨i, hi, hp⟩)

end Step

theorem expand (h : Opens t out x v made b) (hu : Holds v made u)
    (hf : Frontier made v templates root u passed ((rel, .dir) :: items)) :
    Frontier made v templates root u (passed ++ [rel])
      (entriesIn u templates root rel ++ items) := by
  obtain ⟨hne, hrel⟩ := hf.name List.mem_cons_self
  have hmem : ∀ {i}, i ∈ entriesIn u templates root rel → _ := fun {i} hi =>
    of_mem_entriesIn hu.wellFormed hrel hi
  have hafter := (List.pairwise_cons.mp (List.pairwise_append.mp hf.sorted).2.1).1
  obtain ⟨haside, hapart⟩ := List.pairwise_cons.mp hf.apart
  have hbelow : ∀ {i}, i ∈ entriesIn u templates root rel →
      Loc.Before rel i.1 ∧ ∀ j ∈ items.map Prod.fst, Loc.Before i.1 j ∧ ¬i.1 <+: j := by
    intro i hi
    obtain ⟨-, ⟨s, hs0, hs⟩, -⟩ := hmem hi
    refine ⟨hs ▸ Loc.before_append rel hs0, fun j hj => ⟨?_, fun hp => ?_⟩⟩
    · exact hs ▸ (hafter j hj).append_left (haside j hj) s
    · exact haside j hj ((hs ▸ List.prefix_append rel s).trans hp)
  refine
    { sorted := ?_
      apart := ?_
      name := fun hi => ?_
      here := fun hi => ?_
      listable := fun hi => ?_
      seen := hf.seen_next hu
      covered := fun {r} hr he hl => ?_ }
  · rw [List.map_append]
    refine sorted_expand hf.sorted ?_ fun r hr => ?_
    · rw [List.pairwise_map]
      exact sorted_entriesIn u templates root rel
    · obtain ⟨i, hi, rfl⟩ := List.mem_map.mp hr
      exact ⟨(hbelow hi).1, fun j hj => ((hbelow hi).2 j hj).1⟩
  · rw [List.map_append]
    refine List.pairwise_append.mpr
      ⟨apart_entriesIn u templates root rel, hapart, fun r hr j hj => ?_⟩
    obtain ⟨i, hi, rfl⟩ := List.mem_map.mp hr
    exact ((hbelow hi).2 j hj).2
  · rcases List.mem_append.mp hi with hi | hi
    · exact (hmem hi).1
    · exact hf.name (List.mem_cons_of_mem _ hi)
  · rcases List.mem_append.mp hi with hi | hi
    · exact (hmem hi).2.2.1
    · exact hf.here (List.mem_cons_of_mem _ hi)
  · rcases List.mem_append.mp hi with hi | hi
    · exact (hmem hi).2.2.2
    · exact hf.listable (List.mem_cons_of_mem _ hi)
  · rcases hf.covered_next hr he hl with hp | ⟨n, s, rfl⟩ | ⟨i, hi, hp⟩
    · exact .inl hp
    · obtain ⟨i, hi, hp⟩ := exists_mem_entriesIn h hu he hl
      exact .inr ⟨i, List.mem_append_left _ hi, hp⟩
    · exact .inr ⟨i, List.mem_append_right _ hi, hp⟩

theorem pass (h : Opens t out x v made b) (hu : Holds v made u)
    (hf : Frontier made v templates root u passed ((rel, e) :: items)) (he : e ≠ .dir) :
    Frontier made v templates root u (passed ++ [rel]) items := by
  refine
    { sorted := by simpa using hf.sorted
      apart := (List.pairwise_cons.mp hf.apart).2
      name := fun hi => hf.name (List.mem_cons_of_mem _ hi)
      here := fun hi => hf.here (List.mem_cons_of_mem _ hi)
      listable := fun hi => hf.listable (List.mem_cons_of_mem _ hi)
      seen := hf.seen_next hu
      covered := fun {r} hr hm hl => ?_ }
  rcases hf.covered_next hr hm hl with hp | ⟨n, s, rfl⟩ | hp
  · exact .inl hp
  · rw [← List.append_assoc] at hm
    have hdir := h.wellFormed.above (List.cons_ne_nil n s) hm
    have ho : ¬v.loc <+: root ++ rel := fun hp => by
      simp [h.get?_made_eq_none hp] at hdir
    have hm := hf.get?_made hu List.mem_cons_self ho
    exact absurd (Option.some.inj (hm.symm.trans hdir)) he
  · exact .inr hp

/-- What is added to the tree does not change what the walk comes to. -/
theorem mono (hf : Frontier made v templates root u passed items) (hu : Extends u u') :
    Frontier made v templates root u' passed items :=
  { hf with here := fun hi => (hu.get? (by simp [hf.here hi])).trans (hf.here hi) }

theorem mem_passed_of_before {i : Loc × Entry}
    (hf : Frontier made v templates root u passed (i :: items)) {r : Loc} (hr : r ≠ [])
    (he : made.get? (root ++ r) ≠ none) (hl : (templates.extend r.dropLast).length ≤ maxPath)
    (hb : Loc.Before r i.1) : r ∈ passed := by
  refine (hf.covered hr he hl).resolve_right ?_
  rintro ⟨j, hj, hp⟩
  refine Loc.not_before_of_prefix hp ?_
  rcases List.mem_cons.mp hj with rfl | hj
  · exact hb
  · obtain ⟨-, hitems, -⟩ := List.pairwise_append.mp hf.sorted
    exact hb.trans ((List.pairwise_cons.mp hitems).1 j.1 (List.mem_map_of_mem hj))

theorem nodup (hf : Frontier made v templates root u passed items) : passed.Nodup :=
  (List.pairwise_append.mp hf.sorted).1.imp Loc.Before.ne

end Frontier
end TemplateTree
end EnvTemplate
