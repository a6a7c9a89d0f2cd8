import EnvTemplate.FileTree.Operation

/-! How names are followed.  `Leads` says that names lead from one directory to another, and past which
places.  Names that can be followed lead to a directory up to the last of them, and what the names do
depends on these places only. -/
namespace EnvTemplate
namespace FileTree

/-- A name of an entry: neither of the two names that lead nowhere new. -/
def IsProper (name : Bytes) : Prop := name ≠ Path.dot ∧ name ≠ Path.dotDot

instance (name : Bytes) : Decidable (IsProper name) := inferInstanceAs (Decidable (_ ∧ _))

/-- Names lead from a directory to another one, past at most so many links.  The last list has the
places that are looked at on the way. -/
inductive Leads (t : FileTree) : Nat → Loc → List Bytes → Loc → List Loc → Prop
  | here (n : Nat) (dir : Loc) : Leads t n dir [] dir []
  | dot {n : Nat} {dir loc : Loc} {rest : List Bytes} {places : List Loc}
      (h : Leads t n dir rest loc places) : Leads t n dir (Path.dot :: rest) loc places
  | dotDot {n : Nat} {dir loc : Loc} {rest : List Bytes} {places : List Loc}
      (h : Leads t n dir.dropLast rest loc places) : Leads t n dir (Path.dotDot :: rest) loc places
  | down {n : Nat} {dir loc : Loc} {name : Bytes} {rest : List Bytes} {places : List Loc}
      (hp : IsProper name) (hl : name.length ≤ maxName) (he : t.get? (dir ++ [name]) = some .dir)
      (h : Leads t n (dir ++ [name]) rest loc places) :
      Leads t n dir (name :: rest) loc ((dir ++ [name]) :: places)
  | link {n : Nat} {dir loc : Loc} {name : Bytes} {rest : List Bytes} {places : List Loc}
      {target : Path} (hp : IsProper name) (hl : name.length ≤ maxName)
      (he : t.get? (dir ++ [name]) = some (.link target))
      (h : Leads t n (origin dir target) (steps target ++ rest) loc places) :
      Leads t (n + 1) dir (name :: rest) loc ((dir ++ [name]) :: places)

theorem Leads.congr {t u : FileTree} {n : Nat} {dir loc : Loc} {names : List Bytes}
    {places : List Loc} (h : Leads t n dir names loc places)
    (hu : ∀ p ∈ places, u.get? p = t.get? p) : Leads u n dir names loc places := by
  induction h with
  | here n dir => exact .here n dir
  | dot _ ih => exact .dot (ih hu)
  | dotDot _ ih => exact .dotDot (ih hu)
  | down hp hl he _ ih =>
    refine .down hp hl ((hu _ List.mem_cons_self).trans he) (ih fun p hm => ?_)
    exact hu p (List.mem_cons_of_mem _ hm)
  | link hp hl he _ ih =>
    refine .link hp hl ((hu _ List.mem_cons_self).trans he) (ih fun p hm => ?_)
    exact hu p (List.mem_cons_of_mem _ hm)

/-! ### Following names -/

theorem follow_nil (t : FileTree) (keepLast : Bool) (n : Nat) (dir : Loc) :
    t.follow keepLast n dir [] = .ok (.present dir .dir) := by
  cases n <;> rfl

theorem follow_dot (t : FileTree) (keepLast : Bool) (n : Nat) (dir : Loc) (rest : List Bytes) :
    t.follow keepLast n dir (Path.dot :: rest) = t.follow keepLast n dir rest := by
  cases n <;> rfl

theorem follow_dotDot (t : FileTree) (keepLast : Bool) (n : Nat) (dir : Loc) (rest : List Bytes) :
    t.follow keepLast n dir (Path.dotDot :: rest) = t.follow keepLast n dir.dropLast rest := by
  cases n <;> rfl

theorem follow_down {t : FileTree} {dir : Loc} {name : Bytes} (hp : IsProper name)
    (hl : name.length ≤ maxName) (he : t.get? (dir ++ [name]) = some .dir) (keepLast : Bool)
    (n : Nat) (rest : List Bytes) :
    t.follow keepLast n dir (name :: rest) = t.follow keepLast n (dir ++ [name]) rest := by
  cases n <;> simp [follow, descend, hp.1, hp.2, Nat.not_lt.mpr hl, he]

theorem follow_link {t : FileTree} {dir : Loc} {name : Bytes} {target : Path} (hp : IsProper name)
    (hl : name.length ≤ maxName) (he : t.get? (dir ++ [name]) = some (.link target))
    {keepLast : Bool} {rest : List Bytes} (hr : keepLast = true → rest ≠ []) (n : Nat) :
    t.follow keepLast (n + 1) dir (name :: rest) =
      t.follow keepLast n (origin dir target) (steps target ++ rest) := by
  have hk : ¬(rest = [] ∧ keepLast = true) := fun hk => hr hk.2 hk.1
  simp [follow, descend, hp.1, hp.2, Nat.not_lt.mpr hl, he, hk]

theorem follow_last {t : FileTree} {dir : Loc} {name : Bytes} {e : Entry} (hp : IsProper name)
    (hl : name.length ≤ maxName) (he : t.get? (dir ++ [name]) = some e) (n : Nat) :
    t.follow true n dir [name] = .ok (.present (dir ++ [name]) e) := by
  cases e <;> cases n <;> simp [follow, descend, hp.1, hp.2, Nat.not_lt.mpr hl, he]

/-- How the first of some names is taken when they can be followed. -/
inductive FirstStep (t : FileTree) (keepLast : Bool) (n : Nat) (dir : Loc) (name : Bytes)
    (rest : List Bytes) (s : Spot) : Prop
  | dot (hd : name = Path.dot) (h : t.follow keepLast n dir rest = .ok s)
  | dotDot (hd : name = Path.dotDot) (h : t.follow keepLast n dir.dropLast rest = .ok s)
  | down (hp : IsProper name) (hl : name.length ≤ maxName)
      (he : t.get? (dir ++ [name]) = some .dir)
      (h : t.follow keepLast n (dir ++ [name]) rest = .ok s)
  | link (m : Nat) (target : Path) (hp : IsProper name) (hl : name.length ≤ maxName)
      (he : t.get? (dir ++ [name]) = some (.link target)) (hn : n = m + 1)
      (hr : keepLast = true → rest ≠ [])
      (h : t.follow keepLast m (origin dir target) (steps target ++ rest) = .ok s)
  | last (hp : IsProper name) (hl : name.length ≤ maxName) (hr : rest = [])
      (he : t.get? (dir ++ [name]) ≠ some .dir)
      (hs : s = match t.get? (dir ++ [name]) with
        | some e => .present (dir ++ [name]) e
        | none => .absent dir name)

theorem firstStep {t : FileTree} {keepLast : Bool} {n : Nat} {dir : Loc} {name : Bytes}
    {rest : List Bytes} {s : Spot} (h : t.follow keepLast n dir (name :: rest) = .ok s) :
    FirstStep t keepLast n dir name rest s := by
  by_cases hd : name = Path.dot
  · exact .dot hd (by rwa [hd, follow_dot] at h)
  by_cases hdd : name = Path.dotDot
  · exact .dotDot hdd (by rwa [hdd, follow_dotDot] at h)
  have hl : name.length ≤ maxName := by
    refine Nat.not_lt.mp fun hlt => ?_
    cases n <;> simp [follow, descend, hd, hdd, hlt] at h
  have hl' := Nat.not_lt.mpr hl
  cases he : t.get? (dir ++ [name]) with
  | none =>
    by_cases hr : rest = []
    · refine .last ⟨hd, hdd⟩ hl hr (by simp [he]) ?_
      cases n <;> simpa [follow, descend, hd, hdd, hl', he, hr, eq_comm] using h
    · cases n <;> simp [follow, descend, hd, hdd, hl', he, hr] at h
  | some e =>
    cases e with
    | dir => exact .down ⟨hd, hdd⟩ hl he (by rwa [follow_down ⟨hd, hdd⟩ hl he] at h)
    | file content =>
      by_cases hr : rest = []
      · refine .last ⟨hd, hdd⟩ hl hr (by simp [he]) ?_
        cases n <;> simpa [follow, descend, hd, hdd, hl', he, hr, eq_comm] using h
      · cases n <;> simp [follow, descend, hd, hdd, hl', he, hr] at h
    | link target =>
      by_cases hr : keepLast = true → rest ≠ []
      · cases n with
        | zero =>
          have hk : ¬(rest = [] ∧ keepLast = true) := fun hk => hr hk.2 hk.1
          simp [follow, descend, hd, hdd, hl', he, hk] at h
        | succ m =>
          exact .link m target ⟨hd, hdd⟩ hl he rfl hr
            (by rwa [follow_link ⟨hd, hdd⟩ hl he hr] at h)
      · obtain ⟨hk, hr⟩ : keepLast = true ∧ rest = [] := by simpa using hr
        refine .last ⟨hd, hdd⟩ hl hr (by simp [he]) ?_
        cases n <;> simpa [follow, descend, hd, hdd, hl', he, hr, hk, eq_comm] using h

/-- Names that lead to a directory are followed to it, and what comes after them is followed from
there, past some of the links. -/
theorem Leads.follow_append {t : FileTree} {n : Nat} {dir loc : Loc} {names : List Bytes}
    {places : List Loc} (h : Leads t n dir names loc places) (keepLast : Bool) {rest : List Bytes}
    (hr : rest ≠ []) :
    ∃ m, t.follow keepLast n dir (names ++ rest) = t.follow keepLast m loc rest := by
  induction h with
  | here n dir => exact ⟨n, rfl⟩
  | dot _ ih =>
    obtain ⟨m, hm⟩ := ih
    exact ⟨m, (follow_dot ..).trans hm⟩
  | dotDot _ ih =>
    obtain ⟨m, hm⟩ := ih
    exact ⟨m, (follow_dotDot ..).trans hm⟩
  | down hp hl he _ ih =>
    obtain ⟨m, hm⟩ := ih
    exact ⟨m, (follow_down hp hl he ..).trans hm⟩
  | @link n dir loc name names places target hp hl he _ ih =>
    obtain ⟨m, hm⟩ := ih
    refine ⟨m, ?_⟩
    rw [List.cons_append, follow_link hp hl he fun _ => by simp [hr], ← List.append_assoc]
    exact hm

/-- All but the last of names that can be followed lead to a directory. -/
theorem leads_of_follow {t : FileTree} {keepLast : Bool} {rest : List Bytes} {s : Spot}
    (hr : rest ≠ []) {n : Nat} {dir : Loc} {names : List Bytes}
    (h : t.follow keepLast n dir (names ++ rest) = .ok s) :
    ∃ m loc places, Leads t n dir names loc places ∧ t.follow keepLast m loc rest = .ok s := by
  induction n using Nat.strongRecOn generalizing dir names with
  | ind n ihn =>
    induction names generalizing dir with
    | nil => exact ⟨n, dir, [], .here n dir, h⟩
    | cons name names ih =>
      cases firstStep h with
      | dot hd h =>
        obtain ⟨m, loc, places, hl, hm⟩ := ih h
        exact ⟨m, loc, places, hd ▸ .dot hl, hm⟩
      | dotDot hd h =>
        obtain ⟨m, loc, places, hl, hm⟩ := ih h
        exact ⟨m, loc, places, hd ▸ .dotDot hl, hm⟩
      | down hp hlen he h =>
        obtain ⟨m, loc, places, hl, hm⟩ := ih h
        exact ⟨m, loc, _, .down hp hlen he hl, hm⟩
      | link k target hp hlen he hn _ hk =>
        subst hn
        have hk : t.follow keepLast k (origin dir target) (steps target ++ names ++ rest) = .ok s := by
          rwa [List.append_assoc]
        obtain ⟨m, loc, places, hl, hm⟩ := ihn k (Nat.lt_succ_self k) hk
        exact ⟨m, loc, _, .link hp hlen he hl, hm⟩
      | last _ _ hnil _ _ => simp [hr] at hnil

theorem leads_of_follow_dot {t : FileTree} {keepLast : Bool} {n : Nat} {dir loc : Loc}
    {names : List Bytes} {e : Entry}
    (h : t.follow keepLast n dir (names ++ [Path.dot]) = .ok (.present loc e)) :
    e = .dir ∧ ∃ places, Leads t n dir names loc places := by
  obtain ⟨m, d, places, hl, hm⟩ := leads_of_follow (List.cons_ne_nil _ _) h
  rw [follow_dot, follow_nil] at hm
  obtain ⟨rfl, rfl⟩ : d = loc ∧ Entry.dir = e := by simpa using hm
  exact ⟨rfl, places, hl⟩

theorem follow_false_of_dir {t : FileTree} {n : Nat} {dir loc : Loc} {names : List Bytes}
    (h : t.follow true n dir names = .ok (.present loc .dir)) :
    t.follow false n dir names = .ok (.present loc .dir) := by
  induction n using Nat.strongRecOn generalizing dir names with
  | ind n ihn =>
    induction names generalizing dir with
    | nil => rwa [follow_nil] at h ⊢
    | cons name names ih =>
      cases firstStep h with
      | dot hd h => rw [hd, follow_dot, ih h]
      | dotDot hd h => rw [hd, follow_dotDot, ih h]
      | down hp hl he h => rw [follow_down hp hl he, ih h]
      | link k target hp hl he hn _ hk =>
        subst hn
        rw [follow_link hp hl he (by simp), ihn k (Nat.lt_succ_self k) hk]
      | last _ _ _ he hs =>
        cases hg : t.get? (dir ++ [name]) with
        | none => simp [hg] at hs
        | some e =>
          obtain ⟨-, rfl⟩ : loc = dir ++ [name] ∧ Entry.dir = e := by simpa [hg] using hs
          exact absurd hg he

theorem Leads.get?_ne_none {t : FileTree} {n : Nat} {dir loc : Loc} {names : List Bytes}
    {places : List Loc} (h : Leads t n dir names loc places) :
    ∀ p ∈ places, t.get? p ≠ none := by
  induction h with
  | here => simp
  | dot _ ih => exact ih
  | dotDot _ ih => exact ih
  | down _ _ he _ ih => simpa [he] using ih
  | link _ _ he _ ih => simpa [he] using ih

end FileTree
end EnvTemplate
