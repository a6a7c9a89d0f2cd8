import EnvTemplate.FileTree.Basic

/-! The names that a path is made of.  Joining paths puts their names one behind the other, and the
names of a parent are the first names of a path. -/
namespace EnvTemplate
namespace Path

/-! ### Pieces -/

theorem pieces_cons_slash (p : Path) : pieces (slash :: p) = [] :: pieces p := by
  simp [pieces]

theorem pieces_ne_nil (p : Path) : pieces p ≠ [] := by
  cases p with
  | nil => simp [pieces]
  | cons b p =>
    unfold pieces
    split
    · simp
    · split <;> simp

theorem pieces_cons {b : UInt8} (hb : b ≠ slash) {p piece : Path} {more : List Bytes}
    (h : pieces p = piece :: more) : pieces (b :: p) = (b :: piece) :: more := by
  rw [pieces, if_neg hb, h]

theorem pieces_of_not_mem {n : Bytes} (h : slash ∉ n) : pieces n = [n] := by
  induction n with
  | nil => rfl
  | cons b n ih =>
    rw [List.mem_cons, not_or] at h
    exact pieces_cons (Ne.symm h.1) (ih h.2)

theorem pieces_append_slash (p q : Path) : pieces (p ++ slash :: q) = pieces p ++ pieces q := by
  induction p with
  | nil => exact pieces_cons_slash q
  | cons b p ih =>
    by_cases hb : b = slash
    · subst hb
      rw [List.cons_append, pieces_cons_slash, pieces_cons_slash, ih, List.cons_append]
    · obtain ⟨piece, more, hp⟩ := List.exists_cons_of_ne_nil (pieces_ne_nil p)
      rw [hp] at ih
      rw [List.cons_append, pieces_cons hb hp, pieces_cons hb ih]
      rfl

theorem slash_not_mem_of_mem_pieces {p piece : Path} (h : piece ∈ pieces p) : slash ∉ piece := by
  induction p generalizing piece with
  | nil =>
    obtain rfl : piece = [] := by simpa [pieces] using h
    simp
  | cons b p ih =>
    by_cases hb : b = slash
    · rw [hb, pieces_cons_slash] at h
      rcases List.mem_cons.mp h with rfl | h
      · simp
      · exact ih h
    · obtain ⟨first, more, hp⟩ := List.exists_cons_of_ne_nil (pieces_ne_nil p)
      rw [pieces_cons hb hp] at h
      rcases List.mem_cons.mp h with rfl | h
      · have hf := ih (hp ▸ List.mem_cons_self)
        simp [hf, Ne.symm hb]
      · exact ih (hp ▸ List.mem_cons_of_mem first h)

theorem mem_of_mem_pieces {p piece : Path} {b : UInt8} (h : piece ∈ pieces p) (hb : b ∈ piece) :
    b ∈ p := by
  induction p generalizing piece with
  | nil =>
    obtain rfl : piece = [] := by simpa [pieces] using h
    exact hb
  | cons c p ih =>
    by_cases hc : c = slash
    · rw [hc, pieces_cons_slash] at h
      rcases List.mem_cons.mp h with rfl | h
      · cases hb
      · exact List.mem_cons_of_mem c (ih h hb)
    · obtain ⟨first, more, hp⟩ := List.exists_cons_of_ne_nil (pieces_ne_nil p)
      rw [pieces_cons hc hp] at h
      rcases List.mem_cons.mp h with rfl | h
      · rcases List.mem_cons.mp hb with rfl | hb
        · exact List.mem_cons_self
        · exact List.mem_cons_of_mem c (ih (hp ▸ List.mem_cons_self) hb)
      · exact List.mem_cons_of_mem c (ih (hp ▸ List.mem_cons_of_mem first h) hb)

theorem pieces_unite {ps : List Bytes} (h : ∀ piece ∈ ps, slash ∉ piece) (hne : ps ≠ []) :
    pieces (unite ps) = ps := by
  induction ps with
  | nil => exact absurd rfl hne
  | cons piece more ih =>
    have hp := h piece List.mem_cons_self
    cases more with
    | nil => exact pieces_of_not_mem hp
    | cons next rest =>
      have hm := ih (fun x hx => h x (List.mem_cons_of_mem piece hx)) (List.cons_ne_nil next rest)
      rw [unite, pieces_append_slash, pieces_of_not_mem hp, hm]
      · rfl
      · simp

/-! ### Names -/

@[simp] theorem names_nil : names [] = [] := rfl

@[simp] theorem names_cons_slash (p : Path) : names (slash :: p) = names p := by
  simp [names, pieces_cons_slash]

theorem names_append_slash (p q : Path) : names (p ++ slash :: q) = names p ++ names q := by
  simp [names, pieces_append_slash]

theorem names_of_not_mem {n : Bytes} (h : slash ∉ n) (hn : n ≠ []) : names n = [n] := by
  simp [names, pieces_of_not_mem h, hn]

theorem names_unite {ps : List Bytes} (h : ∀ piece ∈ ps, slash ∉ piece) :
    names (unite ps) = ps.filter (!·.isEmpty) := by
  by_cases hne : ps = []
  · subst hne
    rfl
  · rw [names, pieces_unite h hne]

theorem mem_names {p n : Path} (h : n ∈ names p) : n ≠ [] ∧ slash ∉ n := by
  obtain ⟨hp, hn⟩ := List.mem_filter.mp h
  exact ⟨by simpa using hn, slash_not_mem_of_mem_pieces hp⟩

theorem mem_of_mem_names {p n : Path} {b : UInt8} (h : n ∈ names p) (hb : b ∈ n) : b ∈ p :=
  mem_of_mem_pieces (List.mem_filter.mp h).1 hb

theorem endsWithSlash_iff {p : Path} : p.endsWithSlash = true ↔ ∃ q, p = q ++ [slash] := by
  rw [endsWithSlash, beq_iff_eq, List.getLast?_eq_some_iff]

theorem names_join (base : Path) {p : Path} (h : p.isAbsolute = false) :
    names (base.join p) = names base ++ names p := by
  rw [join, if_neg (by simp [h])]
  split
  · next hb =>
    rw [Bool.or_eq_true] at hb
    rcases hb with hb | hb
    · obtain rfl : base = [] := by simpa using hb
      rfl
    · obtain ⟨q, rfl⟩ := endsWithSlash_iff.mp hb
      rw [List.append_assoc, List.singleton_append, names_append_slash, names_append_slash,
        names_nil, List.append_nil]
  · exact names_append_slash base p

theorem isAbsolute_join (base p : Path) :
    (base.join p).isAbsolute = (p.isAbsolute || base.isAbsolute) := by
  unfold join
  cases hp : p.isAbsolute with
  | true => simp [hp]
  | false =>
    cases base with
    | nil => simpa [isAbsolute] using hp
    | cons b base =>
      simp only [Bool.false_eq_true, if_false, Bool.false_or]
      split <;> rfl

theorem endsWithSlash_join (base : Path) {p : Path} (h : p ≠ []) :
    (base.join p).endsWithSlash = p.endsWithSlash := by
  obtain ⟨q, b, rfl⟩ := List.eq_nil_or_concat p |>.resolve_left h
  unfold join endsWithSlash
  split
  · rfl
  · split <;> simp [List.getLast?_append, List.getLast?_cons]

theorem mem_join {base p : Path} {b : UInt8} (h : b ∈ base.join p) :
    b ∈ base ∨ b ∈ p ∨ b = slash := by
  unfold join at h
  split at h
  · exact .inr (.inl h)
  · split at h
    · exact (List.mem_append.mp h).imp_right .inl
    · rcases List.mem_append.mp h with h | h
      · exact .inl h
      · exact .inr ((List.mem_cons.mp h).symm)

theorem prefix_join (base : Path) {p : Path} (h : p.isAbsolute = false) : base <+: base.join p := by
  rw [join, if_neg (by simp [h])]
  split <;> exact List.prefix_append _ _

/-! ### Going down -/

/-- A path that goes on with some names. -/
def extend (p : Path) (ns : List Bytes) : Path := ns.foldl join p

@[simp] theorem extend_nil (p : Path) : p.extend [] = p := rfl

theorem extend_append (p : Path) (ns ms : List Bytes) :
    p.extend (ns ++ ms) = (p.extend ns).extend ms :=
  List.foldl_append

theorem extend_concat (p : Path) (ns : List Bytes) (n : Bytes) :
    p.extend (ns ++ [n]) = (p.extend ns).join n := by
  rw [extend_append]
  rfl

def IsPiece (n : Bytes) : Prop := n ≠ [] ∧ slash ∉ n

instance (n : Bytes) : Decidable (IsPiece n) := inferInstanceAs (Decidable (_ ∧ _))

theorem IsPiece.isAbsolute {n : Bytes} (h : IsPiece n) : isAbsolute n = false := by
  cases n with
  | nil => rfl
  | cons b n =>
    have hb : b ≠ slash := fun he => h.2 (he ▸ List.mem_cons_self)
    simpa [Path.isAbsolute] using hb

theorem IsPiece.endsWithSlash {n : Bytes} (h : IsPiece n) : endsWithSlash n = false := by
  refine Bool.eq_false_iff.mpr fun hs => ?_
  obtain ⟨q, hq⟩ := endsWithSlash_iff.mp hs
  exact h.2 (by simp [hq])

variable {ns : List Bytes}

theorem names_extend (p : Path) (h : ∀ n ∈ ns, IsPiece n) : names (p.extend ns) = names p ++ ns := by
  induction ns generalizing p with
  | nil => simp
  | cons n ns ih =>
    have hn := h n List.mem_cons_self
    have he : p.extend (n :: ns) = (p.join n).extend ns := rfl
    rw [he, ih _ fun m hm => h m (List.mem_cons_of_mem n hm), names_join p hn.isAbsolute,
      names_of_not_mem hn.2 hn.1, List.append_assoc, List.singleton_append]

theorem isAbsolute_extend (p : Path) (h : ∀ n ∈ ns, IsPiece n) :
    (p.extend ns).isAbsolute = p.isAbsolute := by
  induction ns generalizing p with
  | nil => rfl
  | cons n ns ih =>
    have he : p.extend (n :: ns) = (p.join n).extend ns := rfl
    rw [he, ih _ fun m hm => h m (List.mem_cons_of_mem n hm), isAbsolute_join,
      (h n List.mem_cons_self).isAbsolute, Bool.false_or]

theorem prefix_extend (p : Path) (h : ∀ n ∈ ns, IsPiece n) : p <+: p.extend ns := by
  induction ns generalizing p with
  | nil => exact List.prefix_refl p
  | cons n ns ih =>
    exact (prefix_join p (h n List.mem_cons_self).isAbsolute).trans
      (ih _ fun m hm => h m (List.mem_cons_of_mem n hm))

theorem mem_extend {p : Path} {b : UInt8} (h : b ∈ p.extend ns) :
    b ∈ p ∨ (∃ n ∈ ns, b ∈ n) ∨ b = slash := by
  induction ns generalizing p with
  | nil => exact .inl h
  | cons n ns ih =>
    rcases ih h with h | ⟨m, hm, hb⟩ | rfl
    · rcases mem_join h with h | h | rfl
      · exact .inl h
      · exact .inr (.inl ⟨n, List.mem_cons_self, h⟩)
      · exact .inr (.inr rfl)
    · exact .inr (.inl ⟨m, List.mem_cons_of_mem n hm, hb⟩)
    · exact .inr (.inr rfl)

/-! ### The parent of a path -/

theorem exists_trim (ps : List Bytes) :
    ∃ rest, ps = trim ps ++ rest ∧ ∀ piece ∈ rest, piece = [] ∨ piece = dot := by
  let q : Bytes → Bool := fun piece => piece.isEmpty || piece == dot
  refine ⟨(ps.reverse.takeWhile q).reverse, ?_, fun piece hp => ?_⟩
  · rw [trim, ← List.reverse_append, List.takeWhile_append_dropWhile, List.reverse_reverse]
  · have hq := List.all_eq_true.mp (List.all_takeWhile (p := q)) piece (List.mem_reverse.mp hp)
    simpa [q] using hq

theorem filter_dots {rest : List Bytes} (h : ∀ piece ∈ rest, piece = [] ∨ piece = dot) :
    ∀ d ∈ rest.filter (!·.isEmpty), d = dot := by
  intro d hd
  obtain ⟨hm, hn⟩ := List.mem_filter.mp hd
  exact (h d hm).resolve_left (by simpa using hn)

theorem trim_isPrefix (ps : List Bytes) : trim ps <+: ps := by
  obtain ⟨rest, hr, -⟩ := exists_trim ps
  exact ⟨rest, hr.symm⟩

theorem trim_dropLast_isPrefix (ps : List Bytes) : trim (trim ps).dropLast <+: ps :=
  (trim_isPrefix _).trans ((List.dropLast_prefix _).trans (trim_isPrefix ps))

theorem trim_last {ps body : List Bytes} {last : Bytes} (h : trim ps = body ++ [last]) :
    last ≠ [] ∧ last ≠ dot := by
  have hd : ps.reverse.dropWhile (fun piece => piece.isEmpty || piece == dot) =
      last :: body.reverse := by
    rw [trim] at h
    simpa using congrArg List.reverse h
  have hq := List.head?_dropWhile_not (fun piece : Bytes => piece.isEmpty || piece == dot) ps.reverse
  rw [hd] at hq
  simpa using hq

theorem isAbsolute_unite {first : Bytes} (h : IsPiece first) (more : List Bytes) :
    (unite (first :: more)).isAbsolute = false := by
  obtain ⟨b, n, rfl⟩ := List.exists_cons_of_ne_nil h.1
  have hb := h.isAbsolute
  cases more <;> exact hb

theorem isPiece_first {p first : Path} {more : List Bytes} (hp : p ≠ [])
    (habs : p.isAbsolute = false) (h : pieces p = first :: more) : IsPiece first := by
  refine ⟨?_, slash_not_mem_of_mem_pieces (h ▸ List.mem_cons_self)⟩
  obtain ⟨b, p, rfl⟩ := List.exists_cons_of_ne_nil hp
  have hb : b ≠ slash := by simpa [isAbsolute] using habs
  obtain ⟨piece, rest, hpp⟩ := List.exists_cons_of_ne_nil (pieces_ne_nil p)
  rw [pieces_cons hb hpp] at h
  exact (List.cons.inj h).1 ▸ List.cons_ne_nil b piece

/-- The names of some pieces are those of the path that is left without the last of them, and then that
one. -/
theorem filter_trim {ps : List Bytes} (hs : ∀ piece ∈ ps, slash ∉ piece) (h : trim ps ≠ []) :
    ∃ dots last more, (∀ d ∈ dots, d = dot) ∧ (∀ d ∈ more, d = dot) ∧
      ps.filter (!·.isEmpty) = names (unite (trim (trim ps).dropLast)) ++ dots ++ last :: more := by
  obtain ⟨rest, hps, hrest⟩ := exists_trim ps
  obtain ⟨rest', hbody, hrest'⟩ := exists_trim (trim ps).dropLast
  have hlast := List.dropLast_concat_getLast h
  have hne := (trim_last hlast.symm).1
  have hunite : ∀ piece ∈ trim (trim ps).dropLast, slash ∉ piece := fun piece hm =>
    hs piece ((trim_dropLast_isPrefix ps).subset hm)
  refine ⟨rest'.filter (!·.isEmpty), (trim ps).getLast h, rest.filter (!·.isEmpty),
    filter_dots hrest', filter_dots hrest, ?_⟩
  rw [names_unite hunite]
  calc ps.filter (!·.isEmpty)
      = (trim ps).filter (!·.isEmpty) ++ rest.filter (!·.isEmpty) := by
        conv => lhs; rw [hps]
        rw [List.filter_append]
    _ = ((trim ps).dropLast.filter (!·.isEmpty) ++ [(trim ps).getLast h]) ++
          rest.filter (!·.isEmpty) := by
        conv => lhs; rw [← hlast]
        rw [List.filter_append]
        simp [hne]
    _ = _ := by
        conv => lhs; rw [hbody]
        rw [List.filter_append, List.append_assoc _ [_]]
        rfl

theorem trim_eq_nil {ps : List Bytes} (h : trim ps = []) {piece : Bytes} (hm : piece ∈ ps)
    (hne : piece ≠ []) : piece = dot := by
  obtain ⟨rest, hps, hrest⟩ := exists_trim ps
  rw [h, List.nil_append] at hps
  exact (hrest piece (hps ▸ hm)).resolve_left hne

theorem exists_cons_of_isAbsolute {p : Path} (h : p.isAbsolute = true) : ∃ p', p = slash :: p' := by
  cases p with
  | nil => simp [isAbsolute] at h
  | cons b p => exact ⟨p, congrArg (· :: p) (by simpa [isAbsolute] using h)⟩

theorem exists_parent? {p : Path} {n : Bytes} (hm : n ∈ p.names) (hd : n ≠ dot) :
    ∃ q, p.parent? = some q := by
  obtain ⟨hm, hne⟩ := List.mem_filter.mp hm
  have hne : n ≠ [] := by simpa using hne
  unfold parent?
  cases hp : pieces p with
  | nil => exact absurd hp (pieces_ne_nil p)
  | cons first more =>
    rw [hp] at hm
    simp only
    split
    · next habs =>
      obtain ⟨p, rfl⟩ := exists_cons_of_isAbsolute habs
      obtain ⟨rfl, rfl⟩ := List.cons.inj ((pieces_cons_slash p).symm.trans hp)
      cases ht : trim (pieces p) with
      | nil => exact absurd (trim_eq_nil ht ((List.mem_cons.mp hm).resolve_left hne) hne) hd
      | cons x xs => exact ⟨_, rfl⟩
    · split
      · cases trim more <;> exact ⟨_, rfl⟩
      · cases ht : trim (first :: more) with
        | nil => exact absurd (trim_eq_nil ht hm hne) hd
        | cons x xs => exact ⟨_, rfl⟩

/-- The names of the parent are the first names of a path. -/
structure IsParent (p q : Path) : Prop where
  isAbsolute : q.isAbsolute = p.isAbsolute
  names : ∃ dots last more, (∀ d ∈ dots, d = dot) ∧ (∀ d ∈ more, d = dot) ∧
    p.names = q.names ++ dots ++ last :: more

theorem isParent_slash {p q : Path} (h : parent? (slash :: p) = some q) :
    IsParent (slash :: p) q := by
  have habs : isAbsolute (slash :: p) = true := rfl
  have hslash : ∀ piece ∈ pieces p, slash ∉ piece := fun _ => slash_not_mem_of_mem_pieces
  simp only [parent?, pieces_cons_slash, habs, if_true] at h
  cases ht : trim (pieces p) with
  | nil => simp [ht] at h
  | cons x xs =>
    simp only [ht, Option.some.injEq] at h
    rw [← ht] at h
    obtain ⟨dots, last, rest, hd, hr, he⟩ := filter_trim hslash (by simp [ht])
    refine ⟨h ▸ rfl, dots, last, rest, hd, hr, ?_⟩
    rw [← h, names_cons_slash, names_cons_slash, ← he]
    rfl

theorem isParent_dot {p q : Path} {more : List Bytes} (habs : p.isAbsolute = false)
    (hp : pieces p = dot :: more) (h : p.parent? = some q) : IsParent p q := by
  have hnames : p.names = dot :: more.filter (!·.isEmpty) := by rw [Path.names, hp]; rfl
  have hmore : ∀ piece ∈ more, slash ∉ piece := fun piece hm =>
    slash_not_mem_of_mem_pieces (hp ▸ List.mem_cons_of_mem dot hm)
  simp only [parent?, hp, habs, Bool.false_eq_true, if_false, if_true] at h
  cases ht : trim more with
  | nil =>
    simp only [ht, Option.some.injEq] at h
    obtain ⟨rest, hm, hrest⟩ := exists_trim more
    rw [ht, List.nil_append] at hm
    refine ⟨h ▸ habs.symm, [], dot, rest.filter (!·.isEmpty), by simp, filter_dots hrest, ?_⟩
    rw [hnames, ← h, hm]
    rfl
  | cons x xs =>
    simp only [ht, Option.some.injEq] at h
    rw [← ht] at h
    obtain ⟨dots, last, rest, hd, hr, he⟩ := filter_trim hmore (by simp [ht])
    have hdot : IsPiece dot := ⟨by decide, by decide⟩
    have hs : ∀ piece ∈ trim (trim more).dropLast, slash ∉ piece := fun piece hm =>
      hmore piece ((trim_dropLast_isPrefix more).subset hm)
    have hu : Path.names (unite (dot :: trim (trim more).dropLast)) =
        dot :: Path.names (unite (trim (trim more).dropLast)) := by
      rw [names_unite hs, names_unite (List.forall_mem_cons.mpr ⟨hdot.2, hs⟩)]
      rfl
    refine ⟨?_, dots, last, rest, hd, hr, ?_⟩
    · rw [← h, isAbsolute_unite hdot, habs]
    · rw [hnames, ← h, hu, List.cons_append, List.cons_append, ← he]

theorem isParent_piece {p q : Path} {first : Bytes} {more : List Bytes}
    (habs : p.isAbsolute = false) (hp : pieces p = first :: more) (hfirst : first ≠ dot)
    (h : p.parent? = some q) : IsParent p q := by
  have hslash : ∀ piece ∈ first :: more, slash ∉ piece := fun piece hm =>
    slash_not_mem_of_mem_pieces (hp ▸ hm)
  simp only [parent?, hp, habs, Bool.false_eq_true, if_false, if_neg hfirst] at h
  cases ht : trim (first :: more) with
  | nil => simp [ht] at h
  | cons x xs =>
    simp only [ht, Option.some.injEq] at h
    rw [← ht] at h
    obtain ⟨dots, last, rest, hd, hr, he⟩ := filter_trim hslash (by simp [ht])
    refine ⟨?_, dots, last, rest, hd, hr, by rw [Path.names, hp, ← h, ← he]⟩
    have hpre := trim_dropLast_isPrefix (first :: more)
    have hne : p ≠ [] := by
      rintro rfl
      obtain ⟨rfl, rfl⟩ := List.cons.inj hp
      simp [trim] at ht
    rw [← h, habs]
    cases hq : trim (trim (first :: more)).dropLast with
    | nil => rfl
    | cons y ys =>
      obtain rfl : y = first := (List.cons_prefix_cons.mp (hq ▸ hpre)).1
      exact isAbsolute_unite (isPiece_first hne habs hp) ys

theorem isParent_of_parent? {p q : Path} (h : p.parent? = some q) : IsParent p q := by
  obtain ⟨first, more, hp⟩ := List.exists_cons_of_ne_nil (pieces_ne_nil p)
  cases habs : p.isAbsolute with
  | true =>
    obtain ⟨p, rfl⟩ := exists_cons_of_isAbsolute habs
    exact isParent_slash h
  | false =>
    by_cases hfirst : first = dot
    · exact isParent_dot habs (hfirst ▸ hp) h
    · exact isParent_piece habs hp hfirst h

/-- Where the last name of a path leads somewhere, the names of the parent are those before it, but for
steps to the same directory. -/
theorem IsParent.exists_dots {p q : Path} (h : IsParent p q) {ns : List Bytes} {n : Bytes}
    (hn : p.names = ns ++ [n]) (hd : n ≠ dot) :
    ∃ dots, (∀ d ∈ dots, d = dot) ∧ ns = q.names ++ dots := by
  obtain ⟨dots, last, more, hdots, hmore, he⟩ := h.names
  rw [hn] at he
  rcases List.eq_nil_or_concat more with rfl | ⟨more', m, rfl⟩
  · exact ⟨dots, hdots, (List.append_inj' he rfl).1⟩
  · rw [List.concat_eq_append, ← List.cons_append, ← List.append_assoc] at he
    have hnm : n = m := (List.cons.inj (List.append_inj' he rfl).2).1
    exact absurd (hnm.trans (hmore m (by simp))) hd

end Path
end EnvTemplate
