import EnvTemplate.Proofs.Text.Bytes
import EnvTemplate.Proofs.Toml.Flattening
import EnvTemplate.VariableFile

/-! The tables of a document are in order.  While a document is read, no table gets a key twice; a table
that a header names is apart until it is filled, and then goes where its key is not.  Settling puts the
entries of each table in the order of their keys. -/
namespace EnvTemplate
namespace Toml

/-! ### Settling -/

/-- No table that a path can lead to has a key twice. -/
inductive Value.IsDistinct : Value → Prop
  | leaf {v : Value} (h : v.kind ≠ .table) : IsDistinct v
  | table {entries : List (Text × Value)} (keys : (entries.map Prod.fst).Nodup)
      (values : ∀ e ∈ entries, IsDistinct e.2) : IsDistinct (.table entries)

theorem pairwise_sortEntries {α : Type} {entries : List (Text × α)}
    (h : (entries.map Prod.fst).Nodup) :
    (sortEntries entries).Pairwise fun a b => Utf8.encode a.1 < Utf8.encode b.1 := by
  have hsorted : (sortEntries entries).Pairwise fun a b => (compare a.1 b.1).isLE = true := by
    refine List.pairwise_mergeSort (fun a b c hab hbc => ?_) (fun a b => ?_) entries
    · exact Std.TransCmp.isLE_trans hab hbc
    · have hswap : compare b.1 a.1 = (compare a.1 b.1).swap := Std.OrientedCmp.eq_swap
      rw [hswap]
      cases compare a.1 b.1 <;> rfl
  have hdistinct : (sortEntries entries).Pairwise fun a b => a.1 ≠ b.1 := by
    rw [← List.pairwise_map]
    exact ((List.mergeSort_perm entries _).map Prod.fst).nodup_iff.mpr h
  refine hsorted.imp₂ (fun a b hle hne => Utf8.encode_lt_of_compare ?_) hdistinct
  cases hc : compare a.1 b.1 with
  | lt => rfl
  | eq => exact absurd (Std.LawfulEqCmp.eq_of_compare hc) hne
  | gt => simp [hc] at hle

namespace Value

theorem settleEntries?_eq_some {entries settled : List (Text × Value)}
    (h : settleEntries? entries = some settled) : settled.map Prod.fst = entries.map Prod.fst ∧
      ∀ e ∈ settled, ∃ e' ∈ entries, settle? e'.2 = some e.2 := by
  induction entries generalizing settled with
  | nil =>
    cases h
    exact ⟨rfl, fun e he => absurd he List.not_mem_nil⟩
  | cons e entries ih =>
    simp only [settleEntries?, Option.bind_eq_bind, Option.bind_eq_some_iff, Option.some.injEq] at h
    obtain ⟨v, hv, rest, hrest, rfl⟩ := h
    obtain ⟨hkeys, hvalues⟩ := ih hrest
    refine ⟨by simp [hkeys], fun e' he' => ?_⟩
    rcases List.mem_cons.mp he' with rfl | he'
    · exact ⟨e, List.mem_cons_self, hv⟩
    · obtain ⟨e'', he'', hs⟩ := hvalues e' he'
      exact ⟨e'', List.mem_cons_of_mem e he'', hs⟩

theorem IsDistinct.isOrdered {v : Value} (hv : v.IsDistinct) {w : Value} (h : v.settle? = some w) :
    w.IsOrdered := by
  induction hv generalizing w with
  | @leaf v hk =>
    refine .leaf ?_
    cases v with
    | table entries => exact absurd rfl hk
    | array items =>
      obtain ⟨items', -, rfl⟩ := Option.map_eq_some_iff.mp h
      simp [kind]
    | _ =>
      cases h
      exact hk
  | @table entries keys values ih =>
    rw [settle?] at h
    split at h
    · split at h <;> cases h
      exact .leaf (by simp [kind])
    · cases h
    · obtain ⟨settled, hs, rfl⟩ := Option.map_eq_some_iff.mp h
      obtain ⟨hkeys, hvalues⟩ := settleEntries?_eq_some hs
      refine .table (pairwise_sortEntries (hkeys ▸ keys)) fun e he => ?_
      obtain ⟨e', he', hs'⟩ := hvalues e ((List.mergeSort_perm settled _).mem_iff.mp he)
      exact ih e' he' hs'

end Value

/-! ### Drafts -/

namespace Draft

inductive IsDistinct : Draft → Prop
  | value {v : Value} (h : v.IsDistinct) : IsDistinct (.value v)
  | table {origin : Origin} {entries : List (Text × Draft)} (keys : (entries.map Prod.fst).Nodup)
      (values : ∀ e ∈ entries, IsDistinct e.2) : IsDistinct (.table origin entries)
  | tables {items : List Draft} (h : ∀ d ∈ items, IsDistinct d) : IsDistinct (.tables items)

theorem isDistinct_new (origin : Origin) : (table origin []).IsDistinct :=
  .table .nil fun _ he => absurd he List.not_mem_nil

theorem map_fst_replace (key : Text) (d : Draft) (entries : List (Text × Draft)) :
    (replace key d entries).map Prod.fst = entries.map Prod.fst := by
  rw [replace, List.map_map]
  refine List.map_congr_left fun e _ => ?_
  simp only [Function.comp]
  split
  · next h => exact h.symm
  · rfl

theorem mem_of_lookup {entries : List (Text × Draft)} {key : Text} {d : Draft}
    (h : entries.lookup key = some d) : (key, d) ∈ entries := by
  obtain ⟨before, after, rfl, -⟩ := List.lookup_eq_some_iff.mp h
  exact List.mem_append_right before List.mem_cons_self

theorem not_mem_of_lookup {entries : List (Text × Draft)} {key : Text}
    (h : entries.lookup key = none) : key ∉ entries.map Prod.fst := by
  intro hm
  obtain ⟨e, he, rfl⟩ := List.mem_map.mp hm
  simpa using List.lookup_eq_none_iff.mp h e he

theorem lookup_replace {entries : List (Text × Draft)} {key : Text} {d : Draft}
    (h : entries.lookup key = some d) (d' : Draft) :
    (replace key d' entries).lookup key = some d' := by
  induction entries with
  | nil => cases h
  | cons e entries ih =>
    by_cases hk : key = e.1
    · simp [replace, hk]
    · have hb : (key == e.1) = false := by simpa using hk
      rw [List.lookup_cons, hb] at h
      rw [replace, List.map_cons, if_neg (Ne.symm hk), List.lookup_cons, hb]
      exact ih h

section Table

variable {origin : Origin} {entries : List (Text × Draft)} {key : Text} {d : Draft}

theorem IsDistinct.of_lookup (h : (Draft.table origin entries).IsDistinct)
    (hd : entries.lookup key = some d) : d.IsDistinct := by
  cases h with
  | table keys values => exact values _ (mem_of_lookup hd)

theorem IsDistinct.replace (h : (Draft.table origin entries).IsDistinct) (hd : d.IsDistinct) (key : Text) :
    (Draft.table origin (replace key d entries)).IsDistinct := by
  cases h with
  | table keys values =>
    refine .table (by rwa [map_fst_replace]) fun e he => ?_
    obtain ⟨e', he', rfl⟩ := List.mem_map.mp he
    split
    · exact hd
    · exact values e' he'

theorem IsDistinct.add (h : (Draft.table origin entries).IsDistinct)
    (hk : key ∉ entries.map Prod.fst) (hd : d.IsDistinct) :
    (Draft.table origin (entries ++ [(key, d)])).IsDistinct := by
  cases h with
  | table keys values =>
    refine .table ?_ fun e he => ?_
    · rw [List.map_append, List.map_singleton, List.nodup_append]
      refine ⟨keys, by simp, fun k hm l hl => ?_⟩
      obtain rfl := List.mem_singleton.mp hl
      rintro rfl
      exact hk hm
    · rcases List.mem_append.mp he with he | he
      · exact values e he
      · obtain rfl := List.mem_singleton.mp he
        exact hd

end Table

/-! ### Changes of drafts -/

variable {α : Type} {P : α → Prop} {dotted : Bool} {change : Draft → Option (α × Draft)}

/-- A change keeps keys apart, and what it finds is as it should be. -/
def Keeps (P : α → Prop) (change : Draft → Option (α × Draft)) : Prop :=
  ∀ d found d', d.IsDistinct → change d = some (found, d') → P found ∧ d'.IsDistinct

theorem within_cons_eq_some {key : Text} {path : List Text} {d d' : Draft} {found : α}
    (h : within dotted change (key :: path) d = some (found, d')) :
    ∃ origin entries inner, d = table origin entries ∧
      ((entries.lookup key = none ∧
          within dotted change path (table ⟨true, dotted⟩ []) = some (found, inner) ∧
          d' = table origin (entries ++ [(key, inner)])) ∨
        (∃ latest earlier, entries.lookup key = some (tables (latest :: earlier)) ∧
          within dotted change path latest = some (found, inner) ∧
          d' = table origin (replace key (tables (inner :: earlier)) entries)) ∨
        ∃ o es, entries.lookup key = some (table o es) ∧
          within dotted change path (table o es) = some (found, inner) ∧
          d' = table origin (replace key inner entries)) := by
  cases d with
  | value v => cases h
  | tables items => cases h
  | table origin entries =>
    rw [within] at h
    split at h
    · next hl =>
      obtain ⟨⟨_, inner⟩, hw, he⟩ := Option.map_eq_some_iff.mp h
      cases he
      exact ⟨origin, entries, inner, rfl, .inl ⟨hl, hw, rfl⟩⟩
    · next latest earlier hl =>
      obtain ⟨⟨_, inner⟩, hw, he⟩ := Option.map_eq_some_iff.mp h
      cases he
      exact ⟨origin, entries, inner, rfl, .inr (.inl ⟨latest, earlier, hl, hw, rfl⟩)⟩
    · next o es hl =>
      split at h
      · cases h
      · obtain ⟨⟨_, inner⟩, hw, he⟩ := Option.map_eq_some_iff.mp h
        cases he
        exact ⟨origin, entries, inner, rfl, .inr (.inr ⟨o, es, hl, hw, rfl⟩)⟩
    · cases h

theorem IsDistinct.of_tables {latest : Draft} {earlier : List Draft}
    (h : (Draft.tables (latest :: earlier)).IsDistinct) :
    latest.IsDistinct ∧ ∀ {d : Draft}, d.IsDistinct → (Draft.tables (d :: earlier)).IsDistinct := by
  cases h with
  | tables h =>
    obtain ⟨hlatest, hearlier⟩ := List.forall_mem_cons.mp h
    exact ⟨hlatest, fun hd => .tables (List.forall_mem_cons.mpr ⟨hd, hearlier⟩)⟩

/-- A change keeps keys apart wherever it is made. -/
theorem Keeps.within (hc : Keeps P change) (dotted : Bool) (path : List Text) :
    Keeps P (within dotted change path) := by
  intro d found d' hd h
  induction path generalizing d d' with
  | nil => exact hc d found d' hd h
  | cons key path ih =>
    obtain ⟨origin, entries, inner, rfl, hstep⟩ := within_cons_eq_some h
    rcases hstep with ⟨hl, hw, rfl⟩ | ⟨latest, earlier, hl, hw, rfl⟩ | ⟨o, es, hl, hw, rfl⟩
    · obtain ⟨hp, hinner⟩ := ih _ _ (isDistinct_new _) hw
      exact ⟨hp, hd.add (not_mem_of_lookup hl) hinner⟩
    · obtain ⟨hlatest, hput⟩ := (hd.of_lookup hl).of_tables
      obtain ⟨hp, hinner⟩ := ih _ _ hlatest hw
      exact ⟨hp, hd.replace (hput hinner) key⟩
    · obtain ⟨hp, hinner⟩ := ih _ _ (hd.of_lookup hl) hw
      exact ⟨hp, hd.replace hinner key⟩

theorem keeps_insert (isDotted : Bool) (key : Text) {v : Value} (hv : v.IsDistinct) :
    Keeps (fun _ => True) (insert isDotted key v) := by
  intro d found d' hd h
  cases d with
  | table origin entries =>
    rw [insert] at h
    split at h
    · next hc =>
      cases h
      exact ⟨trivial, hd.add (not_mem_of_lookup (Option.isNone_iff_eq_none.mp hc.2)) (.value hv)⟩
    · cases h
  | _ => cases h

theorem keeps_takeTable (key : Text) : Keeps IsDistinct (takeTable key) := by
  intro d found d' hd h
  cases d with
  | table origin entries =>
    rw [takeTable] at h
    split at h
    · cases h
      exact ⟨isDistinct_new _, hd⟩
    · next o es hl =>
      split at h
      · cases h
        cases hd with
        | table keys values =>
          refine ⟨?_, .table (keys.sublist (List.filter_sublist.map _)) fun e he =>
            values e (List.mem_filter.mp he).1⟩
          cases values _ (mem_of_lookup hl) with
          | table keys' values' => exact .table keys' values'
      · cases h
    · cases h
  | _ => cases h

theorem keeps_openTables (key : Text) : Keeps (fun _ => True) (openTables key) := by
  intro d found d' hd h
  cases d with
  | table origin entries =>
    rw [openTables] at h
    split at h
    · next hl =>
      cases h
      exact ⟨trivial, hd.add (not_mem_of_lookup hl) (.tables fun _ he => absurd he List.not_mem_nil)⟩
    · cases h
      exact ⟨trivial, hd⟩
    · cases h
  | _ => cases h

theorem keeps_pushTable (key : Text) {t : Draft} (ht : t.IsDistinct) :
    Keeps (fun _ => True) (pushTable key t) := by
  intro d found d' hd h
  cases d with
  | table origin entries =>
    rw [pushTable] at h
    split at h
    · next items hl =>
      cases h
      cases hd.of_lookup hl with
      | tables hitems =>
        exact ⟨trivial, hd.replace (.tables (List.forall_mem_cons.mpr ⟨ht, hitems⟩)) key⟩
    · cases h
  | _ => cases h

/-! ### Tables that are apart -/

/-- A table can be put under a key where a path leads, and keys stay apart. -/
def HasRoom (key : Text) (path : List Text) (d : Draft) : Prop :=
  ∀ t u d', t.IsDistinct → within false (putTable key t) path d = some (u, d') → d'.IsDistinct

theorem takeTable_eq_some {key : Text} {d found d' : Draft} (h : takeTable key d = some (found, d')) :
    ∃ origin entries, d' = table origin entries ∧ key ∉ entries.map Prod.fst := by
  cases d with
  | table origin entries =>
    rw [takeTable] at h
    split at h
    · next hl =>
      cases h
      exact ⟨origin, entries, rfl, not_mem_of_lookup hl⟩
    · split at h
      · cases h
        exact ⟨origin, _, rfl, by simp⟩
      · cases h
    · cases h
  | _ => cases h

theorem exists_table_of_take {key : Text} {path : List Text} {d found d' : Draft}
    (h : within false (takeTable key) path d = some (found, d')) :
    ∃ origin entries, d' = table origin entries := by
  cases path with
  | nil =>
    obtain ⟨origin, entries, rfl, -⟩ := takeTable_eq_some h
    exact ⟨origin, entries, rfl⟩
  | cons k path =>
    obtain ⟨origin, entries, inner, -, ⟨-, -, rfl⟩ | ⟨_, _, -, -, rfl⟩ | ⟨_, _, -, -, rfl⟩⟩ :=
      within_cons_eq_some h <;> exact ⟨_, _, rfl⟩

/-- Where a table was taken it can be put back, whatever it has become. -/
theorem hasRoom_of_take {key : Text} {path : List Text} {d found d' : Draft} (hd : d.IsDistinct)
    (h : within false (takeTable key) path d = some (found, d')) : HasRoom key path d' := by
  intro t u d'' ht hput
  have hd' := ((keeps_takeTable key).within false path d found d' hd h).2
  induction path generalizing d d' d'' with
  | nil =>
    obtain ⟨origin, entries, rfl, hk⟩ := takeTable_eq_some h
    cases hput
    exact hd'.add hk ht
  | cons k path ih =>
    obtain ⟨origin, entries, inner, rfl, hstep⟩ := within_cons_eq_some h
    obtain ⟨origin', entries', inner', rfl, hback⟩ := within_cons_eq_some hput
    have htable {x : Draft} (hx : x.IsDistinct)
        (hw : within false (takeTable key) path x = some (found, inner))
        (hl : entries'.lookup k = some inner) : d''.IsDistinct := by
      obtain ⟨o, es, hinner⟩ := exists_table_of_take hw
      rw [hl, hinner] at hback
      rcases hback with ⟨hnone, -⟩ | ⟨_, _, hsome, -⟩ | ⟨o', es', hsome, hw', rfl⟩
      · cases hnone
      · cases hsome
      · cases hsome
        have hin := ih hx hw _ (hinner ▸ hw') (hd'.of_lookup hl)
        exact hd'.replace hin k
    rcases hstep with ⟨hl, hw, he⟩ | ⟨latest, earlier, hl, hw, he⟩ | ⟨o, es, hl, hw, he⟩
    · cases he
      exact htable (isDistinct_new _) hw (by simp [List.lookup_append, hl])
    · cases he
      have hlookup := lookup_replace hl (tables (inner :: earlier))
      rw [hlookup] at hback
      rcases hback with ⟨hnone, -⟩ | ⟨_, _, hsome, hw', rfl⟩ | ⟨_, _, hsome, -⟩
      · cases hnone
      · cases hsome
        obtain ⟨hinner, hput'⟩ := (hd'.of_lookup hlookup).of_tables
        have hin := ih (hd.of_lookup hl).of_tables.1 hw _ hw' hinner
        exact hd'.replace (hput' hin) k
      · cases hsome
    · cases he
      exact htable (hd.of_lookup hl) hw (lookup_replace hl inner)

/-! ### Finished drafts -/

theorem toEntries_eq (entries : List (Text × Draft)) :
    toEntries entries = entries.map fun e => (e.1, e.2.toValue) := by
  induction entries with
  | nil => rfl
  | cons e entries ih => rw [toEntries, ih, List.map_cons]

theorem IsDistinct.toValue {d : Draft} (h : d.IsDistinct) : d.toValue.IsDistinct := by
  induction h with
  | value h => exact h
  | tables h => exact .leaf (by simp [Draft.toValue, Value.kind])
  | table keys values ih =>
    rw [Draft.toValue, toEntries_eq]
    refine .table (by rwa [List.map_map]) fun e he => ?_
    obtain ⟨e', he', rfl⟩ := List.mem_map.mp he
    exact ih e' he'

theorem IsDistinct.addValue {d d' : Draft} (hd : d.IsDistinct) {key : Key} {v : Value}
    (hv : v.IsDistinct) (h : d.addValue key v = some d') : d'.IsDistinct := by
  obtain ⟨⟨found, _⟩, hw, rfl⟩ := Option.map_eq_some_iff.mp h
  exact ((keeps_insert _ _ hv).within true key.path _ _ _ hd hw).2

theorem IsDistinct.addValues {d d' : Draft} (hd : d.IsDistinct) {entries : List (Key × Value)}
    (hes : ∀ e ∈ entries, e.2.IsDistinct)
    (h : entries.foldlM (fun d e => d.addValue e.1 e.2) d = some d') : d'.IsDistinct := by
  induction entries generalizing d with
  | nil =>
    cases h
    exact hd
  | cons e entries ih =>
    rw [List.foldlM_cons, Option.bind_eq_bind, Option.bind_eq_some_iff] at h
    obtain ⟨next, hnext, hrest⟩ := h
    obtain ⟨he, hes⟩ := List.forall_mem_cons.mp hes
    exact ih (hd.addValue he hnext) hes hrest

end Draft

/-! ### Values and lines -/

theorem isDistinct_of_tableOf? {entries : List (Key × Value)} {v : Value}
    (hes : ∀ e ∈ entries, e.2.IsDistinct) (h : tableOf? entries = some v) : v.IsDistinct := by
  obtain ⟨d, hd, rfl⟩ := Option.map_eq_some_iff.mp h
  have hstart : Draft.empty.IsDistinct := Draft.isDistinct_new _
  exact (hstart.addValues hes hd).toValue

theorem kind_ne_table_of_number? {t u : Text} {v : Value} (h : number? t = some (v, u)) :
    v.kind ≠ .table := by
  unfold number? at h
  split at h
  · cases h
    simp [Value.kind]
  · split at h
    · cases h
      simp [Value.kind]
    · split at h
      · cases h
        simp [Value.kind]
      · obtain ⟨⟨n, rest⟩, -, he⟩ := Option.map_eq_some_iff.mp h
        cases he
        simp [Value.kind]

/-- Only inline tables have keys, and their entries are added as those of a document are. -/
theorem isDistinct_of_value? (n : Nat) :
    (∀ depth t v u, value? n depth t = some (v, u) → v.IsDistinct) ∧
      ∀ depth isFirst t entries u, entries? n depth isFirst t = some (entries, u) →
        ∀ e ∈ entries, e.2.IsDistinct := by
  induction n with
  | zero =>
    refine ⟨fun depth t v u h => ?_, fun depth isFirst t entries u h => ?_⟩
    · simp [value?] at h
    · simp [entries?] at h
  | succ n ih =>
    obtain ⟨ihvalue, ihentries⟩ := ih
    refine ⟨fun depth t v u h => ?_, fun depth isFirst t entries u h => ?_⟩
    · unfold value? at h
      split at h
      · split at h
        · obtain ⟨⟨items, rest⟩, -, he⟩ := Option.map_eq_some_iff.mp h
          cases he
          exact .leaf (by simp [Value.kind])
        · cases h
      · split at h
        · simp only [Option.bind_eq_bind, Option.bind_eq_some_iff] at h
          obtain ⟨⟨entries, rest⟩, hes, w, hw, he⟩ := h
          cases he
          exact isDistinct_of_tableOf? (ihentries _ _ _ _ _ hes) hw
        · cases h
      iterate 4
        · obtain ⟨x, -, he⟩ := Option.map_eq_some_iff.mp h
          cases he
          exact .leaf (by simp [Value.kind])
      · exact .leaf (kind_ne_table_of_number? h)
    · unfold entries? at h
      split at h
      · cases h
        exact fun e he => absurd he List.not_mem_nil
      · simp only [Option.bind_eq_bind, Option.bind_eq_some_iff] at h
        obtain ⟨⟨key, _⟩, -, _, -, ⟨v, rest⟩, hv, h⟩ := h
        have hdistinct := ihvalue _ _ _ _ hv
        split at h
        · simp only [Option.bind_eq_some_iff] at h
          obtain ⟨⟨more, _⟩, hmore, he⟩ := h
          cases he
          exact List.forall_mem_cons.mpr ⟨hdistinct, ihentries _ _ _ _ _ hmore⟩
        · cases h
          exact List.forall_mem_cons.mpr ⟨hdistinct, fun e he => absurd he List.not_mem_nil⟩
        · cases h

theorem isDistinct_of_line? {t u : Text} {key : Key} {v : Value}
    (h : line? t = some (.entry key v, u)) : v.IsDistinct := by
  unfold line? at h
  split at h
  · simp only [Option.bind_eq_bind, Option.bind_eq_some_iff] at h
    obtain ⟨_, -, _, -, _, -, _, -, he⟩ := h
    cases he
  · simp only [Option.bind_eq_bind, Option.bind_eq_some_iff] at h
    obtain ⟨_, -, _, -, _, -, he⟩ := h
    cases he
  · split at h
    · cases h
    · simp only [Option.bind_eq_bind, Option.bind_eq_some_iff] at h
      obtain ⟨⟨key', _⟩, -, rest, -, ⟨w, _⟩, hw, _, -, he⟩ := h
      cases he
      exact (isDistinct_of_value? _).1 _ _ _ _ hw

/-! ### Documents -/

/-- A document that has been read so far: no key stands twice in its current table, nor anywhere when
this table is put in its place, whatever it has become. -/
structure Reading.IsSound (r : Reading) : Prop where
  current : r.current.IsDistinct
  close (t d : Draft) (ht : t.IsDistinct) (h : close { r with current := t } = some d) : d.IsDistinct

namespace Reading

theorem isSound_start : start.IsSound where
  current := Draft.isDistinct_new _
  close t d ht h := by
    cases h
    exact ht

theorem IsSound.step {r r' : Reading} (hr : r.IsSound) {l : Line}
    (hl : ∀ key v, l = .entry key v → v.IsDistinct) (h : r.step l = some r') : r'.IsSound := by
  cases l with
  | empty =>
    cases h
    exact hr
  | entry key v =>
    obtain ⟨current, hadd, he⟩ := Option.bind_eq_some_iff.mp h
    cases he
    exact ⟨hr.current.addValue (hl key v rfl) hadd, hr.close⟩
  | table key =>
    simp only [Reading.step, Option.bind_eq_bind, Option.bind_eq_some_iff] at h
    obtain ⟨closed, hclosed, ⟨current, root⟩, htake, he⟩ := h
    cases he
    have hd := hr.close r.current closed hr.current hclosed
    refine ⟨((Draft.keeps_takeTable key.last).within false key.path _ _ _ hd htake).1, ?_⟩
    intro t d ht hput
    obtain ⟨⟨u, _⟩, hw, rfl⟩ := Option.map_eq_some_iff.mp hput
    exact Draft.hasRoom_of_take hd htake t u _ ht hw
  | tables key =>
    simp only [Reading.step, Option.bind_eq_bind, Option.bind_eq_some_iff] at h
    obtain ⟨closed, hclosed, ⟨_, root⟩, hopen, he⟩ := h
    cases he
    have hd := hr.close r.current closed hr.current hclosed
    have hroot := ((Draft.keeps_openTables key.last).within false key.path _ _ _ hd hopen).2
    refine ⟨Draft.isDistinct_new _, fun t d ht hpush => ?_⟩
    obtain ⟨⟨_, _⟩, hw, rfl⟩ := Option.map_eq_some_iff.mp hpush
    exact ((Draft.keeps_pushTable key.last ht).within false key.path _ _ _ hroot hw).2

theorem IsSound.lines {n : Nat} {r r' : Reading} (hr : r.IsSound) {t : Text}
    (h : lines? n r t = some r') : r'.IsSound := by
  induction n generalizing r t with
  | zero =>
    rw [lines?] at h
    split at h
    · cases h
      exact hr
    · cases h
  | succ n ih =>
    rw [lines?] at h
    split at h
    · cases h
      exact hr
    · simp only [Option.bind_eq_bind, Option.bind_eq_some_iff] at h
      obtain ⟨⟨l, rest⟩, hline, next, hnext, hrest⟩ := h
      refine ih (hr.step ?_ hnext) hrest
      rintro key v rfl
      exact isDistinct_of_line? hline

end Reading

/-- The tables of a document that is read are in order. -/
theorem isOrdered_of_read? {t : Text} {v : Value} (h : read? t = some v) : v.IsOrdered := by
  simp only [read?, Option.bind_eq_bind, Option.bind_eq_some_iff] at h
  obtain ⟨r, hr, d, hd, hv⟩ := h
  have hdistinct := (Reading.isSound_start.lines hr).close r.current d
    (Reading.isSound_start.lines hr).current hd
  exact hdistinct.toValue.isOrdered hv

end Toml

namespace VariableFile

theorem flattened_of_parse {p : Path} {text : Text} {v : Toml.Value} (h : parse p text = .ok v)
    (start : Text) (vars : Vars) : v.Flattened start vars (v.flatten start vars) := by
  unfold parse at h
  cases hd : Toml.read? text with
  | none => simp [hd] at h
  | some w =>
    obtain rfl : w = v := by simpa [hd] using h
    exact (Toml.isOrdered_of_read? hd).flattened start vars

/-- The variables of a file are those of a document that is flattened, with no assumption on what the file
says. -/
theorem flattened_of_read {t : FileTree} {p : Path} {r : Vars × Journal} (h : read t p = .ok r) :
    ∃ text v, t.readText p = .ok text ∧ parse p text = .ok v ∧ v.Flattened [] ∅ r := by
  simp only [read, bind, Except.bind] at h
  cases ht : t.readText p with
  | error e => simp [ht] at h
  | ok text =>
    cases hv : parse p text with
    | error f => simp [ht, hv] at h
    | ok v =>
      obtain rfl : v.flatten [] ∅ = r := by simpa [ht, hv] using h
      exact ⟨text, v, rfl, hv, flattened_of_parse hv [] ∅⟩

end VariableFile
end EnvTemplate
