import EnvTemplate.Proofs.Program.ExpandCommand
import EnvTemplate.Proofs.Program.Steps
import EnvTemplate.Proofs.Store.Layers
import EnvTemplate.Proofs.Toml.Flattening

/-! Where a run has its variables from.  The command line overrides the file of variables, that overrides
the configuration, and all of them override the environment, which is read where no other source says
anything.  A source that gives a variable no text still hides what the sources below it say. -/
namespace EnvTemplate

open VariableStore

theorem VariableStore.value?_eq_filter {σ : Type} [VariableStore σ] (s : σ) (n : Text) :
    value? s n = (get? s n).filter (· ≠ []) := by
  cases h : get? s n with
  | none => simp [value?, h]
  | some v => cases v <;> simp [value?, h, Option.filter]

theorem Layered.get?_eq_or (s : Layered) (n : Text) :
    s.get? n = s.own[n]?.or (if s.inherits then s.env.read? n else none) := by
  rw [Layered.get?]
  cases s.own[n]? <;> rfl

/-- What the sources of a run say of variables. -/
structure Sources where
  sets : List (Text × Text)
  file : List (Text × Text)
  config : List (Text × Text)
  env : Environment
  /-- Whether the environment is asked at all. -/
  inherits : Bool

namespace Sources

/-- The value of a variable: that of the first source that gives it one, if only an empty one. -/
def value? (src : Sources) (n : Text) : Option Text :=
  (lastValue? n src.sets).or <| (lastValue? n src.file).or <| (lastValue? n src.config).or <|
    if src.inherits then (src.env[n]?).bind Utf8.decode? else none

def document? (t : FileTree) (p : Path) : Option Toml.Value :=
  (t.readText p).toOption.bind Toml.read?

def leavesOf (v : Option Toml.Value) : List (Text × Text) := v.elim [] (·.leaves [])

def ofRun (inv : Invocation) (start : Program.Start) : Sources where
  sets := inv.sets
  file := leavesOf (inv.vars.bind (document? start.tree))
  config := leavesOf
    (((Settings.path? start.env).toOption.bind (document? start.tree)).bind (·.get? "vars".toList))
  env := start.env
  inherits := !inv.isolated

variable {t : FileTree} {p : Path} {inv : Invocation}

theorem document?_of_read {text : Text} {v : Toml.Value} (hr : t.readText p = .ok text)
    (hv : VariableFile.parse p text = .ok v) : document? t p = some v := by
  unfold VariableFile.parse at hv
  cases hd : Toml.read? text with
  | none => simp [hd] at hv
  | some w =>
    rw [hd] at hv
    cases hv
    rw [document?, hr]
    exact hd

theorem vars_of_fileVars {vars : Vars} {notes : Journal}
    (h : Program.fileVars inv t = .ok (vars, notes)) :
    vars = (∅ : Vars).addAll (leavesOf (inv.vars.bind (document? t))) := by
  unfold Program.fileVars VariableFile.read at h
  cases hp : inv.vars with
  | none =>
    rw [hp] at h
    cases h
    rfl
  | some p =>
    simp only [hp, bind, Except.bind] at h
    cases hr : t.readText p with
    | error e => simp [hr] at h
    | ok text =>
      cases hv : VariableFile.parse p text with
      | error f => simp [hr, hv] at h
      | ok v =>
        have hvars : (v.flatten [] ∅).1 = vars := by
          simp only [hr, hv, mapError_ok, Except.ok.injEq] at h
          rw [h]
        rw [← hvars, Option.bind_some, document?_of_read hr hv]
        exact v.flatten_eq [] ∅

theorem vars_of_settings {settings : Settings} {notes : Journal}
    (h : Settings.read t p = .ok (settings, notes)) :
    settings.vars = (∅ : Vars).addAll (leavesOf ((document? t p).bind (·.get? "vars".toList))) := by
  unfold Settings.read at h
  cases hr : t.readText p with
  | error e =>
    have hd : document? t p = none := by rw [document?, hr]; rfl
    cases e <;> simp only [hr, reduceCtorEq] at h
    cases h
    rw [hd]
    rfl
  | ok text =>
    simp only [hr, bind, Except.bind] at h
    cases hv : VariableFile.parse p text with
    | error f => simp [hv] at h
    | ok v =>
      cases hu : Settings.unset? v with
      | error f => simp [hv, hu] at h
      | ok unset =>
        simp only [hv, hu] at h
        rw [document?_of_read hr hv, Option.bind_some]
        cases hg : v.get? "vars".toList with
        | none =>
          simp only [hg] at h
          cases h
          rfl
        | some vars =>
          simp only [hg] at h
          cases h
          exact vars.flatten_eq [] ∅

variable {start : Program.Start} {rule : UnsetRule} {store : Layered}

/-- The store that a run starts with reads as its sources do. -/
theorem get?_of_ready (h : Program.Ready inv start rule store) {n : Text}
    (hn : Name.isValid n = true) : get? store n = (ofRun inv start).value? n := by
  obtain ⟨path, settings, _, file, _, hp, hs, hf, -, rfl⟩ := h
  have hfile : ∀ n, file[n]? = lastValue? n (ofRun inv start).file := by
    intro n
    rw [vars_of_fileVars hf, Vars.getElem?_addAll]
    simp [ofRun]
  have hconfig : ∀ n, settings.vars[n]? = lastValue? n (ofRun inv start).config := by
    intro n
    rw [vars_of_settings hs, Vars.getElem?_addAll]
    simp [ofRun, hp, Except.toOption]
  have hown : (Program.store inv start.env settings.vars file).own[n]? =
      (lastValue? n inv.sets).or (file[n]?.or settings.vars[n]?) := by
    simp only [Program.store, Layered.addAll, Vars.getElem?_addAll, Vars.lastValue?_toList]
    simp
  have henv : start.env.read? n = ((ofRun inv start).env[n]?).bind Utf8.decode? := by
    rw [Environment.read?, Environment.bytes?_eq (Name.not_mem_equals_of_isValid hn)]
    rfl
  show Layered.get? _ n = _
  rw [Layered.get?_eq_or, hown, hfile, hconfig, value?, Option.or_assoc, Option.or_assoc, ← henv]
  rfl

end Sources

namespace Program

/-- A command line that can be read, and a start with all the files that it names.  Nothing was expanded
yet, and this rule and this store are what it will be done with. -/
structure StartsUp (start : Start) (inv : Invocation) (rule : UnsetRule) (store : Layered) : Prop where
  parsed : CommandLine.parse start.args = .ok inv
  ready : Ready inv start rule store

/-- The segments of a run, each expanded from the store that the one before it leaves.  The first
placeholder finds what the sources say, and the environment stays to the end. -/
structure ReadsSources (src : Sources) (rule : UnsetRule) (store : Layered)
    (steps : List (Segment × Layered)) (last : Layered) : Prop where
  follows : Follows rule store steps last
  reads : ∀ step, firstPlaceholder? steps = some step → ∀ n, Name.isValid n = true →
    get? step.2 n = src.value? n
  /-- An empty value counts as none. -/
  unset : ∀ step, firstPlaceholder? steps = some step → ∀ n, Name.isValid n = true →
    value? step.2 n = (src.value? n).filter (· ≠ [])
  env : (∀ step ∈ steps, step.2.env = src.env) ∧ last.env = src.env

/-- The first placeholder of a run reads each variable from the first source that has it, and no
placeholder changes the environment. -/
theorem run_reads_sources {start : Start} {inv : Invocation} {rule : UnsetRule} {store : Layered}
    (h : StartsUp start inv rule store) :
    ReadsSources (.ofRun inv start) rule store (steps inv rule store start)
      (last inv rule store start) := by
  have hfollows := follows_steps inv rule store start
  have hreads : ∀ step, firstPlaceholder? (steps inv rule store start) = some step →
      ∀ n, Name.isValid n = true → get? step.2 n = (Sources.ofRun inv start).value? n := by
    intro step hstep n hn
    rw [hfollows.store_firstPlaceholder? hstep, Sources.get?_of_ready h.ready hn]
  have henv : store.env = (Sources.ofRun inv start).env := by
    obtain ⟨_, _, _, _, _, -, -, -, -, rfl⟩ := h.ready
    rfl
  refine ⟨hfollows, hreads, fun step hstep n hn => ?_, ?_⟩
  · rw [← hreads step hstep n hn]
    exact value?_eq_filter step.2 n
  · rw [← henv]
    exact hfollows.env_eq

/-! ### A run with all its sources -/

namespace AllSources

def a : Path := Path.ofText ['a']

def v : Path := Path.ofText ['v']

/-- All variables stand in the environment.  `A` stands on the command line twice, the file gives `B` no
text, and the configuration says something of `C`. -/
def start : Start where
  args := ["expand", "a", "-s", "A=first", "--vars", "v", "-s", "A=last"].map fun w => Path.ofText w.toList
  env := [("HOME", "/h"), ("A", "env"), ("B", "env"), ("C", "env"), ("D", "env")].foldl
    (fun env e => env.insert e.1.toList (Utf8.encode e.2.toList)) ∅
  stdin := []
  tree :=
    let dirs := ["h", ".config", "oxidize-env"].map fun w => Path.ofText w.toList
    let made := (List.range 4).foldl (fun t n => t.put (dirs.take n) .dir) (FileTree.mk ∅ [] 0)
    let config := "[vars]\nC = 'config'\n".toList
    ((made.put (dirs ++ [Path.ofText "config.toml".toList]) (.file (Utf8.encode config))).put [v]
      (.file (Utf8.encode "B = ''\n".toList))).put [a]
      (.file (Utf8.encode "$A ${B:-unset} $C $D".toList))

def inv : Invocation :=
  ⟨.expand [a] none, some v, [(['A'], "first".toList), (['A'], "last".toList)], false, false, false⟩

theorem parse_start : CommandLine.parse start.args = .ok inv := by
  have h : (CommandLine.parse start.args).toOption = some inv := by decide +kernel
  exact toOption_eq_some_iff.mp h

end AllSources

open AllSources

theorem run_reads_sources_all :
    (run start).stdout = Utf8.encode "last unset config env".toList ∧
      ∃ rule store, StartsUp start inv rule store ∧
        ReadsSources (.ofRun inv start) rule store (steps inv rule store start)
          (last inv rule store start) := by
  have hcode : (run start).code = 0 := by decide +kernel
  refine ⟨by decide +kernel, ?_⟩
  rcases work_cases inv start with ⟨rule, store, hready, -, -⟩ | ⟨-, ⟨f, hf⟩, -⟩
  · have h : StartsUp start inv rule store := ⟨parse_start, hready⟩
    exact ⟨rule, store, h, run_reads_sources h⟩
  · rw [(run_of_error parse_start hf).1] at hcode
    cases hcode

end Program
end EnvTemplate
