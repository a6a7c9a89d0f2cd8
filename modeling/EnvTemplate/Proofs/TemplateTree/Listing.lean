import EnvTemplate.Proofs.FileTree.Growth
import EnvTemplate.TemplateTree

/-! What is under the directory of the templates, and how it is looked at.  A path that goes on from that
directory with the names of an entry leads to the entry, as long as the path is not too long.  So a
directory lists just what is in it, and a template reads as its content. -/
namespace EnvTemplate

namespace FileTree

variable {t : FileTree} {templates : Path} {root rel : Loc} {e : Entry}

theorem checkPath_extend {p : Path} (h : checkPath p = .ok ()) (hn : ∀ n ∈ rel, IsName n) :
    checkPath (p.extend rel) = .ok () ↔ (p.extend rel).length ≤ maxPath := by
  obtain ⟨h0, hne, -⟩ := checkPath_eq_ok_iff.mp h
  rw [checkPath_eq_ok_iff]
  refine ⟨fun h => h.2.2, fun hl => ⟨fun hm => ?_, fun he => ?_, hl⟩⟩
  · rcases Path.mem_extend hm with hm | ⟨n, hn', hm⟩ | hm
    · exact h0 hm
    · exact (hn n hn').nul hm
    · cases hm
  · obtain ⟨s, hs⟩ := Path.prefix_extend p fun n hm => (hn n hm).piece
    rw [he] at hs
    exact hne (List.append_eq_nil_iff.mp hs).1

theorem status_extend (hw : t.WellFormed) (hs : t.status false templates = .ok (root, .dir))
    (he : t.get? (root ++ rel) = some e) (hne : ∀ p, e ≠ .link p)
    (hl : (templates.extend rel).length ≤ maxPath) :
    t.status false (templates.extend rel) = .ok (root ++ rel, e) := by
  obtain ⟨hcheck, places, hlead⟩ := leads_of_status hs
  have hnames : ∀ n ∈ rel, IsName n := fun n hn => hw.isName_of_mem (a := root) (by simp [he]) hn
  have hpieces : ∀ n ∈ rel, Path.IsPiece n := fun n hn => (hnames n hn).piece
  rcases List.eq_nil_or_concat rel with rfl | ⟨ns, n, rfl⟩
  · have hdir := hlead.get?_eq_dir hw (hw.get?_origin templates)
    rw [List.append_nil] at he ⊢
    obtain rfl : .dir = e := Option.some.inj (hdir.symm.trans he)
    exact hs
  rw [List.concat_eq_append] at *
  have hdir : t.get? (root ++ ns) = some .dir :=
    hw.parent (n := n) (by rw [List.append_assoc, he]; simp)
  obtain ⟨below, -, hdown⟩ := exists_leads_down hw hdir
  have hn := hnames n (by simp)
  have hgoes : t.Goes (templates.extend (ns ++ [n])) ⟨places ++ below, root ++ ns, n⟩ := by
    refine ⟨(checkPath_extend hcheck hnames).mpr hl, hn.proper, templates.names ++ ns, ?_, ?_⟩
    · rw [Path.names_extend _ hpieces, List.append_assoc]
    · rw [origin, Path.isAbsolute_extend _ hpieces, ← origin]
      exact hlead.append hdown
  have hslash : (templates.extend (ns ++ [n])).endsWithSlash = false := by
    rw [Path.extend_concat, Path.endsWithSlash_join _ hn.piece.1, hn.piece.endsWithSlash]
  have hstatus := hgoes.status_false hslash hn.length (e := e)
    (by rwa [Way.loc, List.append_assoc]) hne
  rwa [Way.loc, List.append_assoc] at hstatus

theorem status_of_too_long {p : Path} (h : maxPath < p.length) (keepLast : Bool) :
    ∃ e, t.status keepLast p = .error e := by
  cases hs : t.status keepLast p with
  | error e => exact ⟨e, rfl⟩
  | ok s =>
    have hc := (status_eq_ok_iff.mp hs).1
    have hl := (checkPath_eq_ok_iff.mp hc).2.2
    omega

end FileTree

namespace TemplateTree

open FileTree

variable {t : FileTree} {templates : Path} {root rel : Loc}

def lastName (rel : Loc) : Bytes := rel.getLast?.getD []

@[simp] theorem lastName_concat (ns : Loc) (n : Bytes) : lastName (ns ++ [n]) = n := by
  simp [lastName]

def Found.ofNames (templates : Path) (rel : Loc) (e : Entry) : Found :=
  ⟨templates.extend rel, Path.extend [] rel.dropLast, lastName rel, e⟩

theorem Found.relative_ofNames (templates : Path) {rel : Loc} (h : rel ≠ []) (e : Entry) :
    (Found.ofNames templates rel e).relative = Path.extend [] rel := by
  obtain ⟨ns, n, rfl⟩ := (List.eq_nil_or_concat rel).resolve_left h
  simp [Found.relative, Found.ofNames, Path.extend_concat]

/-- What is in a directory, as the walk finds it.  Where the path to the directory is too long, nothing is
found. -/
def entriesIn (t : FileTree) (templates : Path) (root rel : Loc) : List (Loc × Entry) :=
  if (templates.extend rel).length ≤ maxPath then
    (t.children (root ++ rel)).map fun (name, e) => (rel ++ [name], e)
  else []

theorem listed_fst (rel : Loc) (hw : t.WellFormed)
    (hs : t.status false templates = .ok (root, .dir)) (hd : t.get? (root ++ rel) = some .dir) :
    (listed t (templates.extend rel) (Path.extend [] rel)).1 =
      (entriesIn t templates root rel).map fun (r, e) => Found.ofNames templates r e := by
  unfold entriesIn
  split
  · next hl =>
    have hst := status_extend hw hs hd (by simp) hl
    have hlist : list t (templates.extend rel) (Path.extend [] rel) =
        .ok ((t.children (root ++ rel)).map fun (name, e) =>
          ⟨(templates.extend rel).join name, Path.extend [] rel, name, e⟩) := by
      simp [list, hst, bind, Except.bind]
    simp [listed, hlist, Found.ofNames, Path.extend_concat, Function.comp_def]
  · next hl =>
    obtain ⟨e, he⟩ := status_of_too_long (t := t) (Nat.not_le.mp hl) false
    simp [listed, list, he, bind, Except.bind]

theorem mem_entriesIn {r : Loc} {e : Entry} :
    (r, e) ∈ entriesIn t templates root rel ↔ (templates.extend rel).length ≤ maxPath ∧
      ∃ name, r = rel ++ [name] ∧ t.get? (root ++ r) = some e := by
  unfold entriesIn
  split
  · next hl =>
    simp only [hl, true_and, List.mem_map, Prod.exists, Prod.mk.injEq]
    constructor
    · rintro ⟨name, e, hm, rfl, rfl⟩
      exact ⟨name, rfl, by rw [← List.append_assoc, ← mem_children_iff.mp hm]⟩
    · rintro ⟨name, rfl, he⟩
      exact ⟨name, e, mem_children_iff.mpr (by rwa [List.append_assoc]), rfl, rfl⟩
  · next hl => simp [hl]

theorem sorted_entriesIn (t : FileTree) (templates : Path) (root rel : Loc) :
    (entriesIn t templates root rel).Pairwise fun a b => Loc.Before a.1 b.1 := by
  unfold entriesIn
  split
  · rw [List.pairwise_map]
    exact (sorted_children t _).imp fun h =>
      Loc.before_append_iff.mpr (Loc.before_singleton_iff.mpr h)
  · exact .nil

/-- The text of a template, unless the path to it is too long or it is not UTF-8. -/
def source? (templates : Path) (rel : Loc) (content : Bytes) : Option Text :=
  if (templates.extend rel).length ≤ maxPath then Utf8.decode? content else none

theorem readText_eq_ok_iff (hw : t.WellFormed) (hs : t.status false templates = .ok (root, .dir))
    {content : Bytes} (he : t.get? (root ++ rel) = some (.file content)) {text : Text} :
    t.readText (templates.extend rel) = .ok text ↔ source? templates rel content = some text := by
  unfold source?
  split
  · next hl =>
    have hst := status_extend hw hs he (by simp) hl
    cases hd : Utf8.decode? content <;> simp [readText, FileTree.read, hst, hd, bind, Except.bind]
  · next hl =>
    obtain ⟨e, he⟩ := status_of_too_long (t := t) (Nat.not_le.mp hl) false
    simp [readText, FileTree.read, he, bind, Except.bind]

end TemplateTree
end EnvTemplate
