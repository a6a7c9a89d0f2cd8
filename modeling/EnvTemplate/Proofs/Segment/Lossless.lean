import EnvTemplate.Proofs.Segment.Reading

/-! A scan reads segments until its template ends or begins with a brace that nothing closes.  The
sources of the segments are the part of the template that was read, byte for byte. -/
namespace EnvTemplate

open Segment Text

def Segment.sources (gs : List Segment) : Text := gs.flatMap source

@[simp] theorem Segment.sources_nil : sources [] = [] := rfl

@[simp] theorem Segment.sources_cons (g : Segment) (gs : List Segment) :
    sources (g :: gs) = g.source ++ sources gs := rfl

theorem Segment.Begins.source_append {t rest : Text} {g : Segment} (h : Begins t g rest) :
    g.source ++ rest = t :=
  read_source h.read_eq

theorem Segment.Begins.source_ne_nil {t rest : Text} {g : Segment} (h : Begins t g rest) :
    g.source ≠ [] :=
  read_ne_nil h.ne_nil h.read_eq

theorem Segment.Begins.length_lt {t rest : Text} {g : Segment} (h : Begins t g rest) :
    rest.length < t.length := by
  have hg := List.length_pos_iff.mpr h.source_ne_nil
  rw [← h.source_append, List.length_append]
  omega

/-- Induction along a scan: a template is empty, begins with a brace that nothing closes, or begins
with a segment and goes on with a rest. -/
theorem scan_induction {motive : Text → Prop} (nil : motive [])
    (unclosed : ∀ u, StaysWithin 0 u → motive ('$' :: '{' :: u))
    (segment : ∀ t g rest, Begins t g rest → motive rest → motive t) (t : Text) : motive t := by
  induction hn : t.length using Nat.strongRecOn generalizing t with
  | _ n ih =>
    by_cases ht : t = []
    · rw [ht]
      exact nil
    · rcases begins_or_unclosed ht with ⟨g, rest, h⟩ | ⟨u, rfl, hu⟩
      · exact segment t g rest h (ih rest.length (hn ▸ h.length_lt) rest rfl)
      · exact unclosed u hu

theorem scan_of_begins {t rest : Text} {g : Segment} (h : Begins t g rest) :
    scan t = ((scan rest).shift g.source.byteSize).cons g :=
  scan_of_read h.ne_nil h.read_eq

theorem scan_unclosed {u : Text} (hu : StaysWithin 0 u) :
    scan ('$' :: '{' :: u) = ⟨[], some ⟨0⟩⟩ :=
  scan_of_unclosed (by simp) (read_unclosed hu)

/-- What a scan leaves unread: nothing, or a text that begins with a brace that nothing closes, at
the offset that the scan reports. -/
inductive Scan.Leaves (s : Scan) : Text → Prop
  | nothing (h : s.unclosed = none) : Leaves s []
  | unclosed {u : Text} (h : s.unclosed = some ⟨(sources s.segments).byteSize⟩)
      (hu : StaysWithin 0 u) : Leaves s ('$' :: '{' :: u)

theorem Scan.Leaves.cons {s : Scan} {rest : Text} (h : s.Leaves rest) (g : Segment) :
    ((s.shift g.source.byteSize).cons g).Leaves rest := by
  cases h with
  | nothing h => exact .nothing (by simp [Scan.cons, Scan.shift, h])
  | unclosed h hu => exact .unclosed (by simp [Scan.cons, Scan.shift, h]) hu

/-- The sources of the segments of a scan and what it leaves make up the template. -/
theorem exists_leaves (t : Text) :
    ∃ rest, t = sources (scan t).segments ++ rest ∧ (scan t).Leaves rest := by
  induction t using scan_induction with
  | nil => exact ⟨[], rfl, .nothing rfl⟩
  | unclosed u hu =>
    rw [scan_unclosed hu]
    exact ⟨_, rfl, .unclosed rfl hu⟩
  | segment t g rest h ih =>
    obtain ⟨left, hr, hl⟩ := ih
    rw [scan_of_begins h]
    refine ⟨left, ?_, hl.cons g⟩
    have hs : ((scan rest).shift g.source.byteSize).segments = (scan rest).segments := rfl
    rw [Scan.cons, sources_cons, hs, List.append_assoc, ← hr, h.source_append]

theorem sources_scan {t : Text} (h : (scan t).unclosed = none) : sources (scan t).segments = t := by
  obtain ⟨rest, ht, hl⟩ := exists_leaves t
  cases hl with
  | nothing => simpa using ht.symm
  | unclosed h' => simp [h] at h'

theorem source_ne_nil_of_mem_scan {t : Text} {g : Segment} (hg : g ∈ (scan t).segments) :
    g.source ≠ [] := by
  induction t using scan_induction with
  | nil => simp at hg
  | unclosed u hu => simp [scan_unclosed hu] at hg
  | segment t g' rest h ih =>
    rw [scan_of_begins h] at hg
    rcases List.mem_cons.mp hg with rfl | hg
    · exact h.source_ne_nil
    · exact ih hg

/-- A scan loses nothing and invents nothing: the sources of its segments are the whole template, or
the bytes before the unclosed brace, and none of them is empty. -/
theorem scan_lossless (t : Text) :
    ((scan t).unclosed = none → sources (scan t).segments = t) ∧
      (∀ e, (scan t).unclosed = some e →
        Utf8.encode (sources (scan t).segments) = (Utf8.encode t).take e.offset ∧
          e.offset < (Utf8.encode t).length) ∧
      ∀ g ∈ (scan t).segments, g.source ≠ [] := by
  refine ⟨sources_scan, fun e he => ?_, fun g hg => source_ne_nil_of_mem_scan hg⟩
  obtain ⟨rest, ht, hl⟩ := exists_leaves t
  cases hl with
  | nothing h => simp [h] at he
  | @unclosed u h =>
    obtain rfl : ⟨(sources (scan t).segments).byteSize⟩ = e := Option.some.inj (h.symm.trans he)
    have hb := congrArg Utf8.encode ht
    rw [Utf8.encode_append] at hb
    have hlen := Utf8.length_encode (sources (scan t).segments)
    refine ⟨?_, ?_⟩
    · rw [hb, ← hlen, List.take_left]
    · have hu : 0 < (Utf8.encode ('$' :: '{' :: u)).length := by
        rw [Utf8.length_encode]
        exact byteSize_pos (by simp)
      rw [hb, List.length_append, hlen]
      exact Nat.lt_add_of_pos_right hu

theorem scan_lossless_unclosed :
    let t : Text := "é${A:-{x}}${1}€ ".toList ++ ['$', '{', 'B']
    (scan t).unclosed = some ⟨19⟩ ∧
      Utf8.encode (sources (scan t).segments) = (Utf8.encode t).take 19 := by
  intro t
  have h : (scan t).unclosed = some ⟨19⟩ := by decide +kernel
  exact ⟨h, ((scan_lossless t).2.1 _ h).1⟩

end EnvTemplate
