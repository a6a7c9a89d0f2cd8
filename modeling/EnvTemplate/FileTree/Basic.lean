import Std.Data.ExtTreeMap
import EnvTemplate.FileTree.Error
import EnvTemplate.Path

/-!
A tree of files.  The tree is a map from places to what stands there, so that two trees have the same
entries when the same things stand at the same places.  A place is the list of names that lead to it
from the root; places are ordered name by name, a directory before what is in it.
-/
namespace EnvTemplate

/-- A place in a tree: the names that lead to it from the root. -/
abbrev Loc := List Bytes

inductive Entry
  | dir
  | file (content : Bytes)
  | link (target : Path)
  deriving DecidableEq

structure FileTree where
  entries : Std.ExtTreeMap Loc Entry
  cwd : Loc
  /-- The number of the next name that is made up.  No name is made up twice. -/
  nextName : Nat
  deriving DecidableEq

namespace FileTree

def get? (t : FileTree) (loc : Loc) : Option Entry :=
  if loc.isEmpty then some .dir else t.entries[loc]?

def put (t : FileTree) (loc : Loc) (e : Entry) : FileTree :=
  { t with entries := t.entries.insert loc e }

def clear (t : FileTree) (loc : Loc) : FileTree :=
  { t with entries := t.entries.erase loc }

def isInside (dir loc : Loc) : Bool := dir.isPrefixOf loc && dir != loc

def clearInside (t : FileTree) (dir : Loc) : FileTree :=
  { t with entries := t.entries.filter fun loc _ => !isInside dir loc }

/-- What stands at a place and inside it, with the names that lead to it from there. -/
def under (t : FileTree) (dir : Loc) : List (Loc × Entry) :=
  t.entries.toList.filterMap fun (loc, e) =>
    if dir.isPrefixOf loc then some (loc.drop dir.length, e) else none

def children (t : FileTree) (dir : Loc) : List (Bytes × Entry) :=
  (t.under dir).filterMap fun
    | ([name], e) => some (name, e)
    | _ => none

/-- Moves all that stands at a place and inside it to another place, where at most an empty directory
stands. -/
def move (t : FileTree) (source target : Loc) : FileTree :=
  { t with
    entries := (t.entries.filter fun loc _ => !source.isPrefixOf loc).insertMany
      ((t.under source).map fun (path, e) => (target ++ path, e)) }

theorem get?_put {loc : Loc} (h : loc ≠ []) (t : FileTree) (e : Entry) (p : Loc) :
    (t.put loc e).get? p = if p = loc then some e else t.get? p := by
  by_cases hp : p = loc
  · subst hp
    simp [get?, put, h]
  · simp [get?, put, hp, Std.ExtTreeMap.getElem?_insert, Ne.symm hp]

theorem get?_clear {loc : Loc} (h : loc ≠ []) (t : FileTree) (p : Loc) :
    (t.clear loc).get? p = if p = loc then none else t.get? p := by
  by_cases hp : p = loc
  · subst hp
    simp [get?, clear, h]
  · simp [get?, clear, hp, Std.ExtTreeMap.getElem?_erase, Ne.symm hp]

theorem get?_clearInside (t : FileTree) (dir p : Loc) :
    (t.clearInside dir).get? p = if isInside dir p then none else t.get? p := by
  by_cases hp : p = []
  · subst hp
    have : isInside dir [] = false := by
      cases dir <;> simp [isInside]
    simp [get?, this]
  · cases h : isInside dir p <;> cases hq : t.entries[p]? <;>
      simp [get?, clearInside, hp, h, hq, Std.ExtTreeMap.getElem?_filter]

theorem mem_under {t : FileTree} {dir path : Loc} {e : Entry} :
    (path, e) ∈ t.under dir ↔ t.entries[dir ++ path]? = some e := by
  rw [← Std.ExtTreeMap.mem_toList_iff_getElem?_eq_some]
  simp only [under, List.mem_filterMap, Prod.exists, Option.ite_none_right_eq_some,
    Option.some.injEq, Prod.mk.injEq]
  constructor
  · rintro ⟨loc, e', h, hp, rfl, rfl⟩
    obtain ⟨rest, rfl⟩ := List.isPrefixOf_iff_prefix.1 hp
    simpa using h
  · intro h
    exact ⟨dir ++ path, e, h, by simp, by simp, rfl⟩

theorem distinct_under (t : FileTree) (dir target : Loc) :
    ((t.under dir).map fun (path, e) => (target ++ path, e)).Pairwise
      fun a b => ¬compare a.1 b.1 = .eq := by
  rw [List.pairwise_map]
  unfold under
  rw [List.pairwise_filterMap]
  apply List.Pairwise.imp _ t.entries.distinct_keys_toList
  intro a b hab x hx y hy hxy
  simp only [Option.ite_none_right_eq_some, Option.some.injEq] at hx hy
  obtain ⟨hpa, rfl⟩ := hx
  obtain ⟨hpb, rfl⟩ := hy
  obtain ⟨u, hu⟩ := List.isPrefixOf_iff_prefix.1 hpa
  obtain ⟨v, hv⟩ := List.isPrefixOf_iff_prefix.1 hpb
  apply hab
  have he : u = v := by simpa [← hu, ← hv] using hxy
  rw [← hu, ← hv, he]
  simp

theorem getElem?_move_target {t : FileTree} {source path : Loc} {e : Entry}
    (h : t.entries[source ++ path]? = some e) (target : Loc) :
    (t.move source target).entries[target ++ path]? = some e :=
  Std.ExtTreeMap.getElem?_insertMany_list_of_mem Std.ReflCmp.compare_self
    (distinct_under t source target) (List.mem_map.2 ⟨(path, e), mem_under.2 h, rfl⟩)

theorem getElem?_move_other {t : FileTree} {source target p : Loc}
    (h : ∀ path, p = target ++ path → t.entries[source ++ path]? = none) :
    (t.move source target).entries[p]? =
      if source.isPrefixOf p then none else t.entries[p]? := by
  unfold move
  rw [Std.ExtTreeMap.getElem?_insertMany_list_of_contains_eq_false]
  · cases hs : source.isPrefixOf p <;> cases hp : t.entries[p]? <;>
      simp [Std.ExtTreeMap.getElem?_filter, hs, hp]
  · apply Bool.eq_false_iff.2
    intro hc
    simp only [List.contains_eq_mem, List.map_map, decide_eq_true_eq, List.mem_map,
      Function.comp_apply, Prod.exists] at hc
    obtain ⟨path, e, hu, rfl⟩ := hc
    exact absurd (h path rfl) (by rw [mem_under.1 hu]; simp)

def width (loc : Loc) : Nat := loc.foldr (fun name size => name.length + 1 + size) 0

def extent (t : FileTree) : Nat := (t.under []).foldr (fun e size => width e.1 + size) 0

end FileTree
end EnvTemplate
