import EnvTemplate.Proofs.Store.Laws
import EnvTemplate.Toml.Flatten

/-! Flattening a value, said by the paths of keys that lead to its leaves.  Where the tables are in order,
the leaves come in the order of their paths, so of those with one name the one with the greatest path
stays. -/
namespace EnvTemplate
namespace Toml

def joinPath (name : Text) (path : List Text) : Text := path.foldl joinKey name

/-- A path of keys as it is compared: key by key, and each key by the bytes of its UTF-8 form. -/
def pathBytes (path : List Text) : List Bytes := path.map Utf8.encode

namespace Value

mutual
/-- The leaves of a value that have a text, in their order, with the names that they get. -/
def leaves (name : Text) : Value → List (Text × Text)
  | table entries => leavesOfEntries name entries
  | v => (v.text?.map fun text => (name, text)).toList

def leavesOfEntries (name : Text) : List (Text × Value) → List (Text × Text)
  | [] => []
  | (key, v) :: entries => leaves (joinKey name key) v ++ leavesOfEntries name entries
end

mutual
theorem flatten_eq (name : Text) (v : Value) (vars : Vars) :
    (v.flatten name vars).1 = vars.addAll (v.leaves name) := by
  cases v with
  | table entries => exact flattenEntries_eq name entries vars
  | _ => rfl

theorem flattenEntries_eq (name : Text) (entries : List (Text × Value)) (vars : Vars) :
    (flattenEntries name entries vars).1 = vars.addAll (leavesOfEntries name entries) := by
  match entries with
  | [] => rfl
  | (key, v) :: entries =>
    rw [leavesOfEntries, Vars.addAll_append, ← flatten_eq, ← flattenEntries_eq]
    rfl
end

def at? : List Text → Value → Option Value
  | [], v => some v
  | key :: path, v => (v.get? key).bind (at? path)

/-- The entries of each table that a path can lead to stand in the order of their keys, and no key stands
there twice. -/
inductive IsOrdered : Value → Prop
  | leaf {v : Value} (h : v.kind ≠ .table) : IsOrdered v
  | table {entries : List (Text × Value)}
      (keys : entries.Pairwise fun a b => Utf8.encode a.1 < Utf8.encode b.1)
      (values : ∀ e ∈ entries, IsOrdered e.2) : IsOrdered (table entries)

mutual
/-- All leaves of a value with the paths that lead to them, in the order in which they are flattened. -/
def leafPaths : Value → List (List Text × Value)
  | table entries => leafPathsOfEntries entries
  | v => [([], v)]

def leafPathsOfEntries : List (Text × Value) → List (List Text × Value)
  | [] => []
  | (key, v) :: entries =>
    (leafPaths v).map (fun e => (key :: e.1, e.2)) ++ leafPathsOfEntries entries
end

/-! ### Leaves and notes by path -/

def named? (name : Text) (e : List Text × Value) : Option (Text × Text) :=
  e.2.text?.map fun text => (joinPath name e.1, text)

def note (name : Text) (e : List Text × Value) : Event := .ignored (joinPath name e.1) e.2.kind

mutual
theorem leaves_eq (name : Text) (v : Value) : v.leaves name = v.leafPaths.filterMap (named? name) := by
  cases v with
  | table entries => exact leavesOfEntries_eq name entries
  | _ => rfl

theorem leavesOfEntries_eq (name : Text) (entries : List (Text × Value)) :
    leavesOfEntries name entries = (leafPathsOfEntries entries).filterMap (named? name) := by
  match entries with
  | [] => rfl
  | (key, v) :: entries =>
    rw [leavesOfEntries, leafPathsOfEntries, List.filterMap_append, List.filterMap_map, leaves_eq,
      leavesOfEntries_eq]
    rfl
end

mutual
theorem journal_flatten (name : Text) (v : Value) (vars : Vars) :
    (v.flatten name vars).2 = (v.leafPaths.filter (·.2.text?.isNone)).map (note name) := by
  cases v with
  | table entries => exact journal_flattenEntries name entries vars
  | _ => rfl

theorem journal_flattenEntries (name : Text) (entries : List (Text × Value)) (vars : Vars) :
    (flattenEntries name entries vars).2 =
      ((leafPathsOfEntries entries).filter (·.2.text?.isNone)).map (note name) := by
  match entries with
  | [] => rfl
  | (key, v) :: entries =>
    rw [leafPathsOfEntries, List.filter_append, List.map_append, List.filter_map, List.map_map,
      flattenEntries]
    simp only [journal_flatten, journal_flattenEntries]
    rfl
end

/-! ### The order of paths -/

theorem leafPathsOfEntries_eq (entries : List (Text × Value)) :
    leafPathsOfEntries entries =
      entries.flatMap fun e => (leafPaths e.2).map fun l => (e.1 :: l.1, l.2) := by
  induction entries with
  | nil => rfl
  | cons e entries ih => rw [leafPathsOfEntries, ih, List.flatMap_cons]

theorem leafPaths_of_leaf {v : Value} (h : v.kind ≠ .table) : v.leafPaths = [([], v)] := by
  cases v with
  | table entries => exact absurd rfl h
  | _ => rfl

theorem lookup_eq_some_iff_mem {entries : List (Text × Value)}
    (h : entries.Pairwise fun a b => Utf8.encode a.1 < Utf8.encode b.1) {key : Text} {v : Value} :
    entries.lookup key = some v ↔ (key, v) ∈ entries := by
  induction h with
  | nil => simp
  | @cons e entries hfirst hrest ih =>
    rw [List.mem_cons]
    by_cases hk : key = e.1
    · subst hk
      have hnot : (e.1, v) ∉ entries := fun hm =>
        List.lt_irrefl (Utf8.encode e.1) (hfirst (e.1, v) hm)
      rw [List.lookup_cons, beq_self_eq_true]
      simp [hnot, Prod.ext_iff, eq_comm]
    · have hb : (key == e.1) = false := by simpa using hk
      rw [List.lookup_cons, hb, ih]
      simp [Prod.ext_iff, hk]

theorem IsOrdered.mem_leafPaths_iff {v : Value} (hv : v.IsOrdered) (path : List Text) (leaf : Value) :
    (path, leaf) ∈ v.leafPaths ↔ v.at? path = some leaf ∧ leaf.kind ≠ .table := by
  induction hv generalizing path with
  | @leaf v h =>
    rw [leafPaths_of_leaf h, List.mem_singleton, Prod.mk.injEq]
    cases path with
    | nil =>
      constructor
      · rintro ⟨-, rfl⟩
        exact ⟨rfl, h⟩
      · rintro ⟨hat, -⟩
        exact ⟨rfl, (Option.some.inj hat).symm⟩
    | cons key path =>
      have hget : v.get? key = none := by cases v <;> simp_all [get?, kind]
      simp [at?, hget]
  | @table entries keys values ih =>
    rw [leafPaths, leafPathsOfEntries_eq, List.mem_flatMap]
    cases path with
    | nil =>
      constructor
      · rintro ⟨e, -, hm⟩
        simp at hm
      · rintro ⟨hat, hkind⟩
        exact absurd (congrArg kind (Option.some.inj hat)).symm hkind
    | cons key path =>
      rw [at?, get?, Option.bind_eq_some_iff]
      constructor
      · rintro ⟨⟨k, w⟩, he, hm⟩
        obtain ⟨⟨rest, leaf'⟩, hl, heq⟩ := List.mem_map.mp hm
        cases heq
        obtain ⟨hat, hkind⟩ := (ih _ he rest).mp hl
        exact ⟨⟨w, (lookup_eq_some_iff_mem keys).mpr he, hat⟩, hkind⟩
      · rintro ⟨⟨w, hlookup, hat⟩, hkind⟩
        have he := (lookup_eq_some_iff_mem keys).mp hlookup
        exact ⟨_, he, List.mem_map.mpr ⟨_, (ih _ he path).mpr ⟨hat, hkind⟩, rfl⟩⟩

/-- Each leaf comes before the leaves with greater paths. -/
theorem IsOrdered.pairwise_leafPaths {v : Value} (hv : v.IsOrdered) :
    v.leafPaths.Pairwise fun a b => pathBytes a.1 < pathBytes b.1 := by
  induction hv with
  | leaf h =>
    rw [leafPaths_of_leaf h]
    exact List.pairwise_singleton _ _
  | table keys values ih =>
    rw [leafPaths, leafPathsOfEntries_eq, List.pairwise_flatMap]
    constructor
    · intro e he
      rw [List.pairwise_map]
      exact (ih e he).imp fun h => List.cons_lt_cons_iff.mpr (.inr ⟨rfl, h⟩)
    · refine keys.imp fun hkey a ha b hb => ?_
      obtain ⟨a', -, rfl⟩ := List.mem_map.mp ha
      obtain ⟨b', -, rfl⟩ := List.mem_map.mp hb
      exact List.cons_lt_cons_iff.mpr (.inl hkey)

/-! ### The leaf that a name stands for -/

/-- A path leads to a leaf with a text, and its keys come to a name. -/
structure Names (v : Value) (start n : Text) (path : List Text) (text : Text) : Prop where
  leaf : ∃ leaf, v.at? path = some leaf ∧ leaf.text? = some text
  joined : joinPath start path = n

/-- Of all paths that come to a name this is the greatest one. -/
structure IsGreatest (v : Value) (start n : Text) (path : List Text) (text : Text) : Prop where
  names : v.Names start n path text
  greatest {path' : List Text} {text' : Text} (h : v.Names start n path' text') :
    path' = path ∨ pathBytes path' < pathBytes path

theorem kind_ne_table_of_text? {v : Value} {text : Text} (h : v.text? = some text) :
    v.kind ≠ .table := by
  cases v with
  | table entries => cases h
  | _ => simp only [kind, ne_eq, reduceCtorEq, not_false_eq_true]

theorem text?_eq_none_iff {v : Value} (h : v.kind ≠ .table) :
    v.text? = none ↔ v.kind = .array ∨ v.kind = .datetime := by
  cases v with
  | table entries => exact absurd rfl h
  | _ => simp only [text?, kind, reduceCtorEq, or_false, or_true]

section Ordered

variable {v : Value} {start n text : Text} {path : List Text}

theorem IsOrdered.names_iff (hv : v.IsOrdered) : v.Names start n path text ↔
    ∃ leaf, (path, leaf) ∈ v.leafPaths ∧ named? start (path, leaf) = some (n, text) := by
  constructor
  · rintro ⟨⟨leaf, hat, htext⟩, rfl⟩
    have hm := (hv.mem_leafPaths_iff path leaf).mpr ⟨hat, kind_ne_table_of_text? htext⟩
    exact ⟨leaf, hm, by simp [named?, htext]⟩
  · rintro ⟨leaf, hm, hn⟩
    obtain ⟨text', htext, he⟩ := Option.map_eq_some_iff.mp hn
    cases he
    exact ⟨⟨leaf, ((hv.mem_leafPaths_iff path leaf).mp hm).1, htext⟩, rfl⟩

/-- The last leaf with a name is the one with the greatest path. -/
theorem IsOrdered.exists_isGreatest (hv : v.IsOrdered)
    (h : lastValue? n (v.leaves start) = some text) : ∃ path, v.IsGreatest start n path text := by
  obtain ⟨before, after, hsplit, hafter⟩ := lastValue?_eq_some_iff.mp h
  rw [leaves_eq] at hsplit
  obtain ⟨earlier, rest, hpaths, -, hrest⟩ := List.filterMap_eq_append_iff.mp hsplit
  obtain ⟨skipped, ⟨path, leaf⟩, later, rfl, hskipped, hleaf, rfl⟩ :=
    List.filterMap_eq_cons_iff.mp hrest
  have hm : (path, leaf) ∈ v.leafPaths := by simp [hpaths]
  refine ⟨path, hv.names_iff.mpr ⟨leaf, hm, hleaf⟩, fun {path' text'} hn => ?_⟩
  obtain ⟨leaf', hm', hleaf'⟩ := hv.names_iff.mp hn
  have hsorted := hv.pairwise_leafPaths
  rw [hpaths, ← List.append_assoc] at hm' hsorted
  rcases List.mem_append.mp hm' with hm' | hm'
  · exact .inr ((List.pairwise_append.mp hsorted).2.2 _ hm' _ List.mem_cons_self)
  · rcases List.mem_cons.mp hm' with he | hm'
    · exact .inl (congrArg Prod.fst he)
    · exact absurd rfl (hafter (n, text') (List.mem_filterMap.mpr ⟨_, hm', hleaf'⟩))

theorem IsOrdered.not_names_of_none (hv : v.IsOrdered) (h : lastValue? n (v.leaves start) = none) :
    ¬v.Names start n path text := by
  intro hn
  obtain ⟨leaf, hm, hleaf⟩ := hv.names_iff.mp hn
  rw [leaves_eq] at h
  exact lastValue?_eq_none_iff.mp h _ (List.mem_filterMap.mpr ⟨_, hm, hleaf⟩) rfl

end Ordered

/-- What comes of flattening a value into variables. -/
structure Flattened (v : Value) (start : Text) (vars : Vars) (r : Vars × Journal) : Prop where
  other {n : Text} (h : ∀ path text, ¬v.Names start n path text) : r.1[n]? = vars[n]?
  /-- Of the leaves with one name the one with the greatest path stays. -/
  named {n : Text} (h : ∃ path text, v.Names start n path text) :
    ∃ path text, v.IsGreatest start n path text ∧ r.1[n]? = some text
  /-- Each array and each datetime is noted once, in the order of the paths, and nothing else is. -/
  noted : ∃ ignored : List (List Text × Value),
    (ignored.Pairwise fun a b => pathBytes a.1 < pathBytes b.1) ∧
      (∀ path leaf, (path, leaf) ∈ ignored ↔
        v.at? path = some leaf ∧ (leaf.kind = .array ∨ leaf.kind = .datetime)) ∧
      r.2 = ignored.map fun e => .ignored (joinPath start e.1) e.2.kind

theorem IsOrdered.flattened {v : Value} (hv : v.IsOrdered) (start : Text) (vars : Vars) :
    Flattened v start vars (v.flatten start vars) := by
  have hget (n : Text) :
      (v.flatten start vars).1[n]? = (lastValue? n (v.leaves start)).or vars[n]? := by
    rw [flatten_eq, Vars.getElem?_addAll]
  refine ⟨fun {n} h => ?_, fun {n} h => ?_, ?_⟩
  · cases hl : lastValue? n (v.leaves start) with
    | none => rw [hget, hl, Option.none_or]
    | some text =>
      obtain ⟨path, hpath⟩ := hv.exists_isGreatest hl
      exact absurd hpath.names (h path text)
  · obtain ⟨path, text, hn⟩ := h
    cases hl : lastValue? n (v.leaves start) with
    | none => exact absurd hn (hv.not_names_of_none hl)
    | some text =>
      obtain ⟨path, hpath⟩ := hv.exists_isGreatest hl
      exact ⟨path, text, hpath, by rw [hget, hl, Option.some_or]⟩
  · refine ⟨v.leafPaths.filter (·.2.text?.isNone), hv.pairwise_leafPaths.filter _, ?_,
      journal_flatten start v vars⟩
    intro path leaf
    rw [List.mem_filter, hv.mem_leafPaths_iff, Option.isNone_iff_eq_none, and_assoc]
    refine and_congr_right fun _ => ⟨fun ⟨hk, ht⟩ => (text?_eq_none_iff hk).mp ht, fun h => ?_⟩
    have hk : leaf.kind ≠ .table := by rcases h with h | h <;> simp [h]
    exact ⟨hk, (text?_eq_none_iff hk).mpr h⟩

/-- Each name gets the text of the leaf with the greatest of the paths that come to the name. -/
theorem flatten_keeps_greatest_paths {v : Value} (hv : v.IsOrdered) (start : Text) (vars : Vars) :
    Flattened v start vars (v.flatten start vars) :=
  hv.flattened start vars

def collisions : Value :=
  .table [([], .table [("a_b".toList, .integer 1)]),
    (['a'], .table [(['b'], .string ['x']), (['c'], .string ['y']), (['d'], .datetime)]),
    ("a_b".toList, .boolean true), ("a_c".toList, .array [])]

theorem isOrdered_collisions : collisions.IsOrdered := by
  refine .table (by decide +kernel) fun e he => ?_
  simp only [List.mem_cons, List.not_mem_nil, or_false] at he
  rcases he with rfl | rfl | rfl | rfl
  · exact .table (by decide +kernel) fun e he => by
      obtain rfl := List.mem_singleton.mp he
      exact .leaf (by decide)
  · refine .table (by decide +kernel) fun e he => .leaf ?_
    simp only [List.mem_cons, List.not_mem_nil, or_false] at he
    rcases he with rfl | rfl | rfl <;> decide
  · exact .leaf (by decide)
  · exact .leaf (by decide)

theorem flatten_keeps_greatest_paths_collisions :
    let r := collisions.flatten [] ∅
    collisions.IsOrdered ∧ Flattened collisions [] ∅ r ∧ r.1["a_b".toList]? = some "true".toList ∧
      r.1["a_c".toList]? = some ['y'] ∧
      r.2 = [.ignored "a_d".toList .datetime, .ignored "a_c".toList .array] :=
  ⟨isOrdered_collisions, flatten_keeps_greatest_paths isOrdered_collisions [] ∅, by decide +kernel,
    by decide +kernel, by decide +kernel⟩

end Value
end Toml
end EnvTemplate
