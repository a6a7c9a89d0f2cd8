import EnvTemplate.Proofs.FileTree.Following
import EnvTemplate.Proofs.Path.Names

/-! The shape of a file tree: whatever stands at a place stands in a directory, under a name that an
entry can have.  In such a tree names lead from directory to directory, and a directory lists what is in
it, in the order of the names. -/
namespace EnvTemplate

/-! ### The order of places -/

namespace Loc

/-- One place comes before another one: name by name, a directory before what is in it. -/
def Before (a b : Loc) : Prop := compare a b = .lt

instance (a b : Loc) : Decidable (Before a b) := inferInstanceAs (Decidable (_ = _))

theorem Before.trans {a b c : Loc} (h : Before a b) (h' : Before b c) : Before a c :=
  Std.TransCmp.lt_trans h h'

theorem Before.irrefl (a : Loc) : ¬Before a a := by
  simp [Before]

theorem Before.ne {a b : Loc} (h : Before a b) : a ≠ b := by
  rintro rfl
  exact Before.irrefl a h

theorem before_append (a : Loc) {b : Loc} (h : b ≠ []) : Before a (a ++ b) := by
  induction a with
  | nil =>
    obtain ⟨n, b, rfl⟩ := List.exists_cons_of_ne_nil h
    rfl
  | cons n a ih => simpa [Before, List.compare_cons_cons] using ih

theorem before_append_iff {a b c : Loc} : Before (a ++ b) (a ++ c) ↔ Before b c := by
  induction a with
  | nil => rfl
  | cons n a ih => simpa [Before, List.compare_cons_cons] using ih

theorem before_singleton_iff {n m : Bytes} : Before [n] [m] ↔ compare n m = .lt := by
  rw [Before, List.compare_cons_cons]
  cases compare n m <;> simp [Ordering.then]

theorem Before.append_left {a b : Loc} (h : Before a b) (hp : ¬a <+: b) (c : Loc) :
    Before (a ++ c) b := by
  induction a generalizing b with
  | nil => exact absurd (List.nil_prefix) hp
  | cons n a ih =>
    cases b with
    | nil => simp [Before] at h
    | cons m b =>
      rw [Before, List.cons_append, List.compare_cons_cons] at *
      cases hc : compare n m with
      | lt => rfl
      | gt => simp [hc, Ordering.then] at h
      | eq =>
        rw [hc, Ordering.then] at h
        obtain rfl := Std.LawfulEqCmp.eq_of_compare hc
        exact ih h fun hab => hp (List.cons_prefix_cons.mpr ⟨rfl, hab⟩)

theorem not_before_of_prefix {a b : Loc} (h : a <+: b) : ¬Before b a := by
  obtain ⟨c, rfl⟩ := h
  intro hb
  by_cases hc : c = []
  · subst hc
    rw [List.append_nil] at hb
    exact Before.irrefl a hb
  · exact Before.irrefl a ((before_append a hc).trans hb)

end Loc

namespace FileTree

/-! ### Well-formed trees -/

/-- A name that an entry can have. -/
structure IsName (name : Bytes) : Prop where
  piece : Path.IsPiece name
  proper : IsProper name
  nul : 0 ∉ name
  length : name.length ≤ maxName

instance (name : Bytes) : Decidable (IsName name) :=
  decidable_of_iff (Path.IsPiece name ∧ IsProper name ∧ 0 ∉ name ∧ name.length ≤ maxName)
    ⟨fun h => ⟨h.1, h.2.1, h.2.2.1, h.2.2.2⟩, fun h => ⟨h.piece, h.proper, h.nul, h.length⟩⟩

/-- A tree in which everything stands in a directory and has a name. -/
structure WellFormed (t : FileTree) : Prop where
  parent {d : Loc} {n : Bytes} (h : t.get? (d ++ [n]) ≠ none) : t.get? d = some .dir
  isName {d : Loc} {n : Bytes} (h : t.get? (d ++ [n]) ≠ none) : IsName n
  cwd : t.get? t.cwd = some .dir

variable {t u : FileTree}

@[simp] theorem get?_root (t : FileTree) : t.get? [] = some .dir := rfl

theorem getElem?_entries {loc : Loc} (h : loc ≠ []) (t : FileTree) :
    t.entries[loc]? = t.get? loc := by
  simp [get?, h]

namespace WellFormed

theorem above (h : t.WellFormed) {a b : Loc} (hb : b ≠ []) (he : t.get? (a ++ b) ≠ none) :
    t.get? a = some .dir := by
  induction b generalizing a with
  | nil => exact absurd rfl hb
  | cons name b ih =>
    refine h.parent (n := name) ?_
    by_cases hb' : b = []
    · rwa [hb'] at he
    · rw [ih hb' (by rwa [List.append_assoc])]
      simp

theorem get?_ne_none_of_prefix (h : t.WellFormed) {a b : Loc} (hab : a <+: b)
    (hb : t.get? b ≠ none) : t.get? a ≠ none := by
  obtain ⟨c, rfl⟩ := hab
  by_cases hc : c = []
  · rwa [hc, List.append_nil] at hb
  · simp [h.above hc hb]

theorem get?_eq_none (h : t.WellFormed) {a b : Loc} (hb : b ≠ []) (ha : t.get? a ≠ some .dir) :
    t.get? (a ++ b) = none := by
  cases he : t.get? (a ++ b) with
  | none => rfl
  | some e => exact absurd (h.above hb (by simp [he])) ha

theorem isName_of_mem (h : t.WellFormed) {a b : Loc} (he : t.get? (a ++ b) ≠ none) {n : Bytes}
    (hn : n ∈ b) : IsName n := by
  obtain ⟨x, y, rfl⟩ := List.append_of_mem hn
  refine h.isName (d := a ++ x) (h.get?_ne_none_of_prefix ⟨y, ?_⟩ he)
  simp

theorem empty (n : Nat) : (FileTree.mk ∅ [] n).WellFormed where
  parent h := by simp [get?] at h
  isName h := by simp [get?] at h
  cwd := rfl

theorem congr (h : t.WellFormed) (hc : u.cwd = t.cwd) (hu : ∀ q, u.get? q = t.get? q) :
    u.WellFormed := by
  refine ⟨fun {a n} ha => ?_, fun {a n} ha => ?_, ?_⟩
  · rw [hu] at ha ⊢
    exact h.parent ha
  · rw [hu] at ha
    exact h.isName ha
  · rw [hu, hc]
    exact h.cwd

/-- Something new under a name in a directory keeps the shape, unless it takes a directory's place. -/
theorem put (h : t.WellFormed) {d : Loc} {n : Bytes} {e : Entry}
    (hd : t.get? d = some .dir) (hn : IsName n)
    (he : e = .dir ∨ t.get? (d ++ [n]) ≠ some .dir) :
    (t.put (d ++ [n]) e).WellFormed := by
  have hne : d ++ [n] ≠ [] := by simp
  have hkeep : ∀ {a : Loc}, t.get? a = some .dir → (t.put (d ++ [n]) e).get? a = some .dir := by
    intro a ha
    rw [get?_put hne]
    split
    · next heq =>
      rcases he with rfl | he
      · rfl
      · exact absurd (heq ▸ ha) he
    · exact ha
  refine ⟨fun {a m} ha => ?_, fun {a m} ha => ?_, hkeep h.cwd⟩
  · rw [get?_put hne] at ha
    split at ha
    · next heq =>
      exact (List.append_inj' heq rfl).1 ▸ hkeep hd
    · exact hkeep (h.parent ha)
  · rw [get?_put hne] at ha
    split at ha
    · next heq =>
      exact (List.cons.inj (List.append_inj' heq rfl).2).1 ▸ hn
    · exact h.isName ha

end WellFormed

/-! ### Names that lead somewhere -/

namespace Leads

variable {n m : Nat} {dir loc loc' : Loc} {names a b : List Bytes} {places places' : List Loc}

theorem mono (h : Leads t n dir names loc places) (hm : n ≤ m) : Leads t m dir names loc places := by
  induction h generalizing m with
  | here n dir => exact .here m dir
  | dot _ ih => exact .dot (ih hm)
  | dotDot _ ih => exact .dotDot (ih hm)
  | down hp hl he _ ih => exact .down hp hl he (ih hm)
  | link hp hl he _ ih =>
    obtain ⟨k, rfl⟩ := Nat.exists_eq_add_of_lt hm
    exact .link hp hl he (ih (by omega))

theorem unique (h : Leads t n dir names loc places) (h' : Leads t m dir names loc' places') :
    loc = loc' ∧ places = places' := by
  induction h generalizing m places' with
  | here =>
    cases h'
    exact ⟨rfl, rfl⟩
  | dot _ ih =>
    cases h' with
    | dot h' => exact ih h'
    | down hp => exact absurd rfl hp.1
    | link hp => exact absurd rfl hp.1
  | dotDot _ ih =>
    cases h' with
    | dotDot h' => exact ih h'
    | down hp => exact absurd rfl hp.2
    | link hp => exact absurd rfl hp.2
  | down hp _ he _ ih =>
    cases h' with
    | dot => exact absurd rfl hp.1
    | dotDot => exact absurd rfl hp.2
    | down _ _ _ h' =>
      obtain ⟨rfl, rfl⟩ := ih h'
      exact ⟨rfl, rfl⟩
    | link _ _ he' => simp [he] at he'
  | link hp _ he _ ih =>
    cases h' with
    | dot => exact absurd rfl hp.1
    | dotDot => exact absurd rfl hp.2
    | down _ _ he' => simp [he] at he'
    | link _ _ he' h' =>
      obtain rfl : _ = _ := Entry.link.inj (Option.some.inj (he.symm.trans he'))
      obtain ⟨rfl, rfl⟩ := ih h'
      exact ⟨rfl, rfl⟩

theorem split (h : Leads t n dir (a ++ b) loc places) :
    ∃ m mid before after, m ≤ n ∧ Leads t n dir a mid before ∧ Leads t m mid b loc after ∧
      places = before ++ after := by
  generalize hab : a ++ b = names at h
  induction h generalizing a with
  | here n dir =>
    obtain ⟨rfl, rfl⟩ := List.append_eq_nil_iff.mp hab
    exact ⟨n, dir, [], [], Nat.le_refl n, .here n dir, .here n dir, rfl⟩
  | @dot n dir _ _ _ h ih =>
    cases a with
    | nil =>
      obtain rfl : b = _ := hab
      exact ⟨n, dir, [], _, Nat.le_refl n, .here n dir, .dot h, rfl⟩
    | cons x a =>
      obtain ⟨rfl, hr⟩ := List.cons.inj hab
      obtain ⟨m, mid, before, after, hm, hb, ha, hp⟩ := ih hr
      exact ⟨m, mid, before, after, hm, .dot hb, ha, hp⟩
  | @dotDot n dir _ _ _ h ih =>
    cases a with
    | nil =>
      obtain rfl : b = _ := hab
      exact ⟨n, dir, [], _, Nat.le_refl n, .here n dir, .dotDot h, rfl⟩
    | cons x a =>
      obtain ⟨rfl, hr⟩ := List.cons.inj hab
      obtain ⟨m, mid, before, after, hm, hb, ha, hp⟩ := ih hr
      exact ⟨m, mid, before, after, hm, .dotDot hb, ha, hp⟩
  | @down n dir _ _ _ _ hp hl he h ih =>
    cases a with
    | nil =>
      obtain rfl : b = _ := hab
      exact ⟨n, dir, [], _, Nat.le_refl n, .here n dir, .down hp hl he h, rfl⟩
    | cons x a =>
      obtain ⟨rfl, hr⟩ := List.cons.inj hab
      obtain ⟨m, mid, before, after, hm, hb, ha, rfl⟩ := ih hr
      exact ⟨m, mid, _ :: before, after, hm, .down hp hl he hb, ha, rfl⟩
  | @link n dir _ _ _ _ target hp hl he h ih =>
    cases a with
    | nil =>
      obtain rfl : b = _ := hab
      exact ⟨n + 1, dir, [], _, Nat.le_refl _, .here _ dir, .link hp hl he h, rfl⟩
    | cons x a =>
      obtain ⟨rfl, hr⟩ := List.cons.inj hab
      obtain ⟨m, mid, before, after, hm, hb, ha, rfl⟩ := ih (a := steps target ++ a)
        ((List.append_assoc ..).trans (congrArg _ hr))
      exact ⟨m, mid, _ :: before, after, by omega, .link hp hl he hb, ha, rfl⟩

theorem append {before after : List Loc} {mid : Loc} (h : Leads t n dir a mid before)
    (h' : ∀ m, Leads t m mid b loc after) : Leads t n dir (a ++ b) loc (before ++ after) := by
  induction h with
  | here n dir => exact h' n
  | dot _ ih => exact .dot (ih h')
  | dotDot _ ih => exact .dotDot (ih h')
  | down hp hl he _ ih => exact .down hp hl he (ih h')
  | link hp hl he _ ih =>
    have hrest := ih h'
    rw [List.append_assoc] at hrest
    exact .link hp hl he hrest

theorem dots (h : Leads t n dir a loc places) (ha : ∀ d ∈ a, d = Path.dot) :
    loc = dir ∧ places = [] := by
  induction h with
  | here => exact ⟨rfl, rfl⟩
  | dot _ ih => exact ih fun d hd => ha d (List.mem_cons_of_mem _ hd)
  | dotDot => exact absurd (ha _ List.mem_cons_self) (by decide)
  | down hp => exact absurd (ha _ List.mem_cons_self) hp.1
  | link hp => exact absurd (ha _ List.mem_cons_self) hp.1

theorem of_append_dots (h : Leads t n dir (a ++ b) loc places) (hb : ∀ d ∈ b, d = Path.dot) :
    Leads t n dir a loc places := by
  obtain ⟨m, mid, before, after, -, ha, hd, rfl⟩ := h.split
  obtain ⟨rfl, rfl⟩ := hd.dots hb
  rwa [List.append_nil]

/-- In a well-formed tree names lead from a directory to a directory. -/
theorem get?_eq_dir (hw : t.WellFormed) (h : Leads t n dir names loc places)
    (hd : t.get? dir = some .dir) : t.get? loc = some .dir := by
  induction h with
  | here => exact hd
  | dot _ ih => exact ih hd
  | @dotDot _ dir _ _ _ _ ih =>
    refine ih ?_
    rcases List.eq_nil_or_concat dir with rfl | ⟨a, x, rfl⟩
    · rfl
    · rw [List.concat_eq_append, List.dropLast_concat]
      exact hw.parent (by rw [← List.concat_eq_append, hd]; simp)
  | down _ _ he _ ih => exact ih he
  | @link _ dir _ _ _ _ target _ _ _ _ ih =>
    refine ih ?_
    unfold origin
    split
    · rfl
    · exact hd

theorem get?_first_ne_none {name : Bytes} (h : Leads t n dir (name :: names) loc places)
    (hp : IsProper name) : t.get? (dir ++ [name]) ≠ none := by
  cases h with
  | dot => exact absurd rfl hp.1
  | dotDot => exact absurd rfl hp.2
  | down _ _ he => simp [he]
  | link _ _ he => simp [he]

theorem passed (h : Leads t n dir names loc places) :
    ∀ p ∈ places, t.get? p = some .dir ∨ ∃ target, t.get? p = some (.link target) := by
  induction h with
  | here => simp
  | dot _ ih => exact ih
  | dotDot _ ih => exact ih
  | down _ _ he _ ih => exact List.forall_mem_cons.mpr ⟨.inl he, ih⟩
  | link _ _ he _ ih => exact List.forall_mem_cons.mpr ⟨.inr ⟨_, he⟩, ih⟩

end Leads

theorem exists_leads_down (hw : t.WellFormed) {dir : Loc} {ns : List Bytes}
    (h : t.get? (dir ++ ns) = some .dir) :
    ∃ places, (∀ p ∈ places, dir <+: p) ∧ ∀ n, Leads t n dir ns (dir ++ ns) places := by
  induction ns generalizing dir with
  | nil => exact ⟨[], by simp, fun n => by simpa using .here n dir⟩
  | cons name ns ih =>
    have h' : t.get? ((dir ++ [name]) ++ ns) = some .dir := by simpa using h
    have hd : t.get? (dir ++ [name]) = some .dir := by
      by_cases hns : ns = []
      · simpa [hns] using h'
      · exact hw.above hns (by rw [h']; simp)
    obtain ⟨places, hp, hl⟩ := ih h'
    have hn := hw.isName (by simp [hd] : t.get? (dir ++ [name]) ≠ none)
    refine ⟨(dir ++ [name]) :: places, ?_, fun n => ?_⟩
    · exact List.forall_mem_cons.mpr ⟨List.prefix_append dir _, fun p hm =>
        (List.prefix_append dir [name]).trans (hp p hm)⟩
    · simpa using Leads.down hn.proper hn.length hd (hl n)

/-- Where no links are, names lead straight down. -/
theorem Leads.eq_append {n : Nat} {dir loc : Loc} {ns : List Bytes} {places : List Loc}
    (h : Leads t n dir ns loc places) (hns : ∀ x ∈ ns, IsProper x)
    (hl : ∀ q, dir <+: q → dir ≠ q → ∀ target, t.get? q ≠ some (.link target)) :
    loc = dir ++ ns := by
  induction h with
  | here => simp
  | dot => exact absurd rfl (hns _ List.mem_cons_self).1
  | dotDot => exact absurd rfl (hns _ List.mem_cons_self).2
  | @down _ dir _ name rest _ _ _ _ _ ih =>
    rw [ih (fun x hx => hns x (List.mem_cons_of_mem name hx)) fun q hq hne => hl q
      ((List.prefix_append dir [name]).trans hq) ?_]
    · simp
    · rintro rfl
      have hlen := hq.length_le
      rw [List.length_append, List.length_singleton] at hlen
      omega
  | @link _ dir _ name _ _ _ _ _ he _ _ =>
    exact absurd he (hl _ (List.prefix_append dir [name]) (by simp) _)

theorem Leads.eq_append_of_append {n m : Nat} {start dir loc : Loc} {a ns : List Bytes}
    {places places' : List Loc} (ha : Leads t m start a dir places)
    (h : Leads t n start (a ++ ns) loc places') (hns : ∀ x ∈ ns, IsProper x)
    (hl : ∀ q, dir <+: q → ∀ target, t.get? q ≠ some (.link target)) : loc = dir ++ ns := by
  obtain ⟨k, mid, before, after, -, hb, hd, -⟩ := h.split
  obtain rfl := (hb.unique ha).1
  exact hd.eq_append hns fun q hq _ => hl q hq

/-! ### What a directory lists -/

theorem mem_children_iff {dir : Loc} {name : Bytes} {e : Entry} :
    (name, e) ∈ t.children dir ↔ t.get? (dir ++ [name]) = some e := by
  have hne : dir ++ [name] ≠ [] := by simp
  rw [← getElem?_entries hne, ← mem_under]
  simp only [children, List.mem_filterMap, Prod.exists]
  constructor
  · rintro ⟨path, e', hm, h⟩
    split at h
    · next hp =>
      obtain ⟨rfl, rfl⟩ := Prod.mk.inj (Option.some.inj h)
      obtain ⟨rfl, rfl⟩ := Prod.mk.inj hp
      exact hm
    · cases h
  · exact fun hm => ⟨[name], e, hm, rfl⟩

theorem sorted_under (t : FileTree) (dir : Loc) :
    (t.under dir).Pairwise fun a b => Loc.Before a.1 b.1 := by
  unfold under
  rw [List.pairwise_filterMap]
  refine t.entries.ordered_keys_toList.imp fun {a b} hab x hx y hy => ?_
  simp only [Option.ite_none_right_eq_some, Option.some.injEq] at hx hy
  obtain ⟨hpa, rfl⟩ := hx
  obtain ⟨hpb, rfl⟩ := hy
  obtain ⟨p, hp⟩ := List.isPrefixOf_iff_prefix.1 hpa
  obtain ⟨q, hq⟩ := List.isPrefixOf_iff_prefix.1 hpb
  rw [← hp, ← hq, List.drop_left, List.drop_left]
  rw [← hp, ← hq] at hab
  exact Loc.before_append_iff.mp hab

theorem sorted_children (t : FileTree) (dir : Loc) :
    (t.children dir).Pairwise fun a b => compare a.1 b.1 = .lt := by
  unfold children
  rw [List.pairwise_filterMap]
  refine (sorted_under t dir).imp fun {a b} hab x hx y hy => ?_
  split at hx
  · split at hy
    · obtain rfl := Option.some.inj hx
      obtain rfl := Option.some.inj hy
      exact Loc.before_singleton_iff.mp hab
    · cases hy
  · cases hx

end FileTree
end EnvTemplate
