import EnvTemplate.Proofs.Path.Names

/-! The spelling of a parent.  It is the beginning of a path, and the parent of a path that goes on from a
directory goes on from that directory in the same way, whatever the directory is called. -/
namespace EnvTemplate
namespace Path

theorem unite_append {a b : List Bytes} (ha : a ≠ []) (hb : b ≠ []) :
    unite (a ++ b) = unite a ++ slash :: unite b := by
  induction a with
  | nil => exact absurd rfl ha
  | cons x a ih =>
    cases a with
    | nil =>
      obtain ⟨y, b, rfl⟩ := List.exists_cons_of_ne_nil hb
      rfl
    | cons y a =>
      have h := ih (List.cons_ne_nil y a)
      simp only [List.cons_append, unite, List.append_assoc] at h ⊢
      rw [h]

theorem unite_isPrefix {a b : List Bytes} (h : a <+: b) : unite a <+: unite b := by
  obtain ⟨c, rfl⟩ := h
  by_cases ha : a = []
  · simp [ha, unite]
  by_cases hc : c = []
  · simp [hc]
  · rw [unite_append ha hc]
    exact List.prefix_append _ _

theorem parent?_isPrefix {p q : Path} (h : p.parent? = some q) : q <+: p := by
  have hu : unite (pieces p) = p := unite_pieces p
  unfold parent? at h
  cases hp : pieces p with
  | nil => exact absurd hp (pieces_ne_nil p)
  | cons first more =>
    simp only [hp] at h
    have hbody : ∀ ps : List Bytes, trim (trim ps).dropLast <+: ps := trim_dropLast_isPrefix
    split at h
    · next habs =>
      obtain ⟨p, rfl⟩ := exists_cons_of_isAbsolute habs
      obtain ⟨-, rfl⟩ := List.cons.inj ((pieces_cons_slash p).symm.trans hp)
      split at h
      · cases h
      · next ht =>
        cases h
        refine List.cons_prefix_cons.mpr ⟨rfl, ?_⟩
        have hpre := unite_isPrefix (hbody (pieces p))
        rwa [unite_pieces] at hpre
    · rw [hp] at hu
      rw [← hu]
      split at h
      · split at h
        · cases h
          exact List.nil_prefix
        · next hd _ ht =>
          cases h
          rw [hd]
          exact unite_isPrefix (List.cons_prefix_cons.mpr ⟨rfl, hbody more⟩)
      · split at h
        · cases h
        · cases h
          exact unite_isPrefix (hbody _)

theorem length_names_le (p : Path) : p.names.length ≤ p.length := by
  induction p with
  | nil => simp
  | cons b p ih =>
    by_cases hb : b = slash
    · rw [hb, names_cons_slash, List.length_cons]
      omega
    · obtain ⟨piece, more, hp⟩ := List.exists_cons_of_ne_nil (pieces_ne_nil p)
      have hmore : (more.filter (!·.isEmpty)).length ≤ (names p).length := by
        rw [names, hp]
        exact ((List.sublist_cons_self piece more).filter _).length_le
      rw [names, pieces_cons hb hp, List.length_cons]
      simp only [List.filter_cons, List.isEmpty_cons, Bool.not_false, if_true, List.length_cons]
      omega

theorem names_ne_nil {p : Path} (hp : p ≠ []) (habs : p.isAbsolute = false) : p.names ≠ [] := by
  obtain ⟨first, more, h⟩ := List.exists_cons_of_ne_nil (pieces_ne_nil p)
  have hf := isPiece_first hp habs h
  intro hn
  have hmem : first ∈ p.names := List.mem_filter.mpr ⟨h ▸ List.mem_cons_self, by simpa using hf.1⟩
  simp [hn] at hmem

/-! ### Going on from a directory -/

theorem trim_append {a b : List Bytes} (hb : trim b ≠ []) : trim (a ++ b) = a ++ trim b := by
  unfold trim at hb ⊢
  have hne : (b.reverse.dropWhile fun piece => piece.isEmpty || piece == dot).isEmpty = false := by
    simpa using hb
  rw [List.reverse_append, List.dropWhile_append, hne]
  simp

theorem trim_append_of_nil {a b : List Bytes} (hb : trim b = []) : trim (a ++ b) = trim a := by
  unfold trim at hb ⊢
  have he : (b.reverse.dropWhile fun piece => piece.isEmpty || piece == dot).isEmpty = true := by
    simpa using hb
  rw [List.reverse_append, List.dropWhile_append, if_pos he]

theorem trim_concat {a : List Bytes} {n : Bytes} (hn : n ≠ []) (hd : n ≠ dot) :
    trim (a ++ [n]) = a ++ [n] := by
  simp [trim, hn, hd]

structure IsNamed (base : Path) (n : Bytes) : Prop where
  isAbsolute : base.isAbsolute = true
  pieces : ∃ init, pieces base = init ++ [n]
  isPiece : IsPiece n
  ne_dot : n ≠ dot

/-- What is left of a relative path without its last name. -/
def above (p : Path) : List Bytes := trim (trim (pieces p)).dropLast

variable {base p : Path} {n : Bytes}

theorem trim_trim (ps : List Bytes) : trim (trim ps) = trim ps := by
  rcases List.eq_nil_or_concat (trim ps) with ht | ⟨body, last, ht⟩
  · rw [ht]
    rfl
  · rw [List.concat_eq_append] at ht
    obtain ⟨hne, hd⟩ := trim_last ht
    rw [ht, trim_concat hne hd]

theorem above_isPrefix (p : Path) : above p <+: pieces p := trim_dropLast_isPrefix _

theorem pieces_above (ha : above p ≠ []) : pieces (unite (above p)) = above p :=
  pieces_unite (fun _ hm => slash_not_mem_of_mem_pieces ((above_isPrefix p).subset hm)) ha

theorem trim_pieces_above (ha : above p ≠ []) : trim (pieces (unite (above p))) = above p := by
  rw [pieces_above ha]
  exact trim_trim _

theorem names_above (ha : above p ≠ []) : names (unite (above p)) <+: names p := by
  rw [names, names, pieces_above ha]
  exact (above_isPrefix p).filter _

theorem isAbsolute_above (habs : p.isAbsolute = false) (ha : above p ≠ []) :
    (unite (above p)).isAbsolute = false := by
  have hp : p ≠ [] := by
    rintro rfl
    exact ha rfl
  obtain ⟨first, more, hab⟩ := List.exists_cons_of_ne_nil ha
  obtain ⟨rest, hrest⟩ := above_isPrefix p
  rw [hab, List.cons_append] at hrest
  rw [hab]
  exact isAbsolute_unite (isPiece_first hp habs hrest.symm) more

theorem IsNamed.endsWithSlash (h : IsNamed base n) : base.endsWithSlash = false := by
  refine Bool.eq_false_iff.mpr fun hs => ?_
  obtain ⟨q, rfl⟩ := endsWithSlash_iff.mp hs
  obtain ⟨init, hp⟩ := h.pieces
  rw [pieces_append_slash] at hp
  exact h.isPiece.1 (List.cons.inj (List.append_inj' hp rfl).2).1.symm

theorem IsNamed.join (h : IsNamed base n) (hp : p.isAbsolute = false) :
    base.join p = base ++ slash :: p := by
  have hne : base.isEmpty = false := by
    obtain ⟨b, rfl⟩ := exists_cons_of_isAbsolute h.isAbsolute
    rfl
  rw [Path.join, if_neg (by simp [hp]), if_neg (by simp [hne, h.endsWithSlash])]

theorem parent?_join (h : IsNamed base n) (hp : p.isAbsolute = false) (ht : trim (pieces p) ≠ []) :
    (base.join p).parent? =
      some (if above p = [] then base else base ++ slash :: unite (above p)) := by
  obtain ⟨init, hb⟩ := h.pieces
  obtain ⟨b, rfl⟩ := exists_cons_of_isAbsolute h.isAbsolute
  have hb' : ∃ more, pieces b = more ++ [n] := by
    rw [pieces_cons_slash] at hb
    cases init with
    | nil => exact absurd (List.cons.inj hb).1.symm h.isPiece.1
    | cons x more => exact ⟨more, (List.cons.inj hb).2⟩
  obtain ⟨more, hb'⟩ := hb'
  have hpieces : pieces (slash :: b ++ slash :: p) = [] :: (pieces b ++ pieces p) := by
    rw [pieces_append_slash, pieces_cons_slash, List.cons_append]
  have htrim : trim (pieces b ++ pieces p) = pieces b ++ trim (pieces p) := trim_append ht
  have hne : pieces b ++ trim (pieces p) ≠ [] := by simp [pieces_ne_nil b]
  have habove : trim (pieces b ++ trim (pieces p)).dropLast = pieces b ++ above p := by
    rw [List.dropLast_append_of_ne_nil ht]
    by_cases ha : above p = []
    · rw [trim_append_of_nil ha, ha, hb', trim_concat h.isPiece.1 h.ne_dot, List.append_nil]
    · exact trim_append ha
  have hq : (Path.join (slash :: b) p).parent? = some (slash :: unite (pieces b ++ above p)) := by
    have habs : isAbsolute (slash :: b ++ slash :: p) = true := rfl
    rw [h.join hp, parent?, hpieces]
    simp only
    rw [if_pos habs, htrim]
    cases hx : pieces b ++ trim (pieces p) with
    | nil => exact absurd hx hne
    | cons x xs => rw [← habove, hx]
  rw [hq]
  by_cases ha : above p = []
  · rw [if_pos ha, ha, List.append_nil, unite_pieces]
  · rw [if_neg ha, unite_append (pieces_ne_nil b) ha, unite_pieces]
    rfl

end Path
end EnvTemplate
