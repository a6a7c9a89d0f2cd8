import EnvTemplate.Proofs.FileTree.Growth
import EnvTemplate.Stage

/-! Made-up names beside a target.  A made-up name is a single name, so the path to it leads into the
directory that the target is in. -/
namespace EnvTemplate

namespace Hex

theorem mem_toDigitsCore {b : Nat} (hb : 0 < b) {fuel n : Nat} {ds : Text} {c : Char}
    (h : c ∈ Nat.toDigitsCore b fuel n ds) : c ∈ ds ∨ ∃ d < b, c = Nat.digitChar d := by
  induction fuel generalizing n ds with
  | zero => exact .inl h
  | succ fuel ih =>
    have hfirst : c ∈ Nat.digitChar (n % b) :: ds → c ∈ ds ∨ ∃ d < b, c = Nat.digitChar d := by
      intro hc
      rcases List.mem_cons.mp hc with rfl | hc
      · exact .inr ⟨_, Nat.mod_lt n hb, rfl⟩
      · exact .inl hc
    rw [Nat.toDigitsCore] at h
    split at h
    · exact hfirst h
    · exact (ih h).elim hfirst .inr

theorem mem_digits {n : Nat} {c : Char} (h : c ∈ digits n) : ∃ d < 16, c = Nat.digitChar d :=
  (mem_toDigitsCore (by decide) h).resolve_left (by simp)

end Hex

namespace FileTree

theorem isPiece_madeUp {start : Bytes} (h : Path.IsPiece start) (n : Nat) :
    Path.IsPiece (madeUp start n) := by
  refine ⟨by simp [madeUp, h.1], fun hs => ?_⟩
  rcases List.mem_append.mp hs with hs | hs
  · exact h.2 hs
  obtain ⟨c, hc, hb⟩ := List.mem_flatMap.mp hs
  have hdigit : ∃ d < 16, c = Nat.digitChar d := by
    rcases List.mem_append.mp hc with hc | hc
    · exact ⟨0, by decide, List.eq_of_mem_replicate hc⟩
    · exact Hex.mem_digits hc
  obtain ⟨d, hd, rfl⟩ := hdigit
  have hnone : ∀ d < 16, Path.slash ∉ String.utf8EncodeChar (Nat.digitChar d) := by decide
  exact hnone d hd hb

/-- The path to a made-up name beside a target.  Making up the name changes nothing in the tree. -/
theorem freshBeside_eq (t : FileTree) (target : Path) (start : Bytes) :
    ∃ n next, freshBeside t target start =
      ((t.absolute target.beside).join (madeUp start n), { t with nextName := next }) :=
  ⟨_, _, rfl⟩

variable {t : FileTree}

theorem isAbsolute_absolute (t : FileTree) (p : Path) : (t.absolute p).isAbsolute = true := by
  rw [absolute, Path.isAbsolute_join]
  simp [Path.fromRoot, Path.isAbsolute]

theorem names_absolute (hw : t.WellFormed) (p : Path) :
    (t.absolute p).names = (if p.isAbsolute then [] else t.cwd) ++ p.names := by
  cases hp : p.isAbsolute with
  | true => simp [absolute, Path.join, hp]
  | false =>
    have hcwd : ∀ n ∈ t.cwd, Path.IsPiece n := fun n hn =>
      (hw.isName_of_mem (a := []) (by simp [hw.cwd]) hn).piece
    have hfilter : t.cwd.filter (!·.isEmpty) = t.cwd :=
      List.filter_eq_self.mpr fun n hn => by simp [(hcwd n hn).1]
    rw [absolute, Path.names_join _ hp, Path.fromRoot, Path.names_cons_slash,
      Path.names_unite fun n hn => (hcwd n hn).2, hfilter]
    rfl

theorem Goes.beside (hw : t.WellFormed) {dir : Path} {name : Bytes} (hn : Path.IsPiece name) {v : Way}
    (h : t.Goes ((t.absolute dir).join name) v) :
    v.name = name ∧ ∃ places, Leads t maxLinks (origin t.cwd dir) dir.names v.dir places := by
  obtain ⟨names, hnames, hl⟩ := h.leads
  rw [Path.names_join _ hn.isAbsolute, Path.names_of_not_mem hn.2 hn.1] at hnames
  obtain ⟨hdir, hname⟩ := List.append_inj' hnames rfl
  have horigin : origin t.cwd ((t.absolute dir).join name) = [] := by
    rw [origin, Path.isAbsolute_join, isAbsolute_absolute, Bool.or_true, if_pos rfl]
  rw [horigin, ← hdir, names_absolute hw] at hl
  refine ⟨(List.cons.inj hname).1.symm, ?_⟩
  cases hp : dir.isAbsolute with
  | true =>
    rw [hp, if_pos rfl, List.nil_append] at hl
    exact ⟨_, by rwa [origin, hp, if_pos rfl]⟩
  | false =>
    rw [hp, if_neg Bool.false_ne_true] at hl
    obtain ⟨m, mid, before, after, hm, hb, ha, -⟩ := hl.split
    obtain ⟨_, -, hc⟩ := exists_leads_down hw (show t.get? ([] ++ t.cwd) = some .dir from hw.cwd)
    obtain rfl : mid = t.cwd := (hb.unique (hc 0)).1
    exact ⟨after, by simpa [origin, hp] using ha.mono hm⟩

theorem Goes.leads_beside {p : Path} {w : Way} (h : t.Goes p w) :
    Leads t maxLinks (origin t.cwd p.beside) p.beside.names w.dir w.places := by
  obtain ⟨names, hn, hl⟩ := h.leads
  obtain ⟨q, hq⟩ := Path.exists_parent? (p := p) (n := w.name) (by simp [hn]) h.proper.1
  have hparent := Path.isParent_of_parent? hq
  obtain ⟨dots, hd, rfl⟩ := hparent.exists_dots hn h.proper.1
  have hl' := hl.of_append_dots hd
  rw [origin, ← hparent.isAbsolute, ← origin] at hl'
  rw [Path.beside, hq]
  cases q with
  | nil => exact .dot hl'
  | cons b q => exact hl'

end FileTree
end EnvTemplate
