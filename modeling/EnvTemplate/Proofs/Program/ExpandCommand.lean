import EnvTemplate.Program
import EnvTemplate.Proofs.Expansion.Sequence
import EnvTemplate.Proofs.Stage.Single

/-! The expand command as a whole.  Either all its inputs are expanded and their texts are delivered, or
nothing is delivered and nothing is changed. -/
namespace EnvTemplate
namespace Program

open FileTree

section Runs

variable {start : Start} {inv : Invocation} {inputs : List Path} {output : Option Path}
  {text : Text}

/-- The configuration and the file of variables can be read, and come to this rule and this store. -/
def Ready (inv : Invocation) (start : Start) (rule : UnsetRule) (store : Layered) : Prop :=
  ∃ path settings settingsNotes file fileNotes, Settings.path? start.env = .ok path ∧
    Settings.read start.tree path = .ok (settings, settingsNotes) ∧
    fileVars inv start.tree = .ok (file, fileNotes) ∧
    rule = Program.rule inv settings ∧ store = Program.store inv start.env settings.vars file

/-- A run has all it needs to expand its inputs one after another to a text. -/
def ComesTo (inv : Invocation) (start : Start) (inputs : List Path) (text : Text) : Prop :=
  ∃ rule store templates texts, Ready inv start rule store ∧
    Inputs.Reads start.tree start.stdin (if inputs.isEmpty then [Inputs.standard] else inputs)
      templates ∧
    (expandEach rule templates store).1 = .ok texts ∧ text = texts.flatten

/-- A text is all that a run writes: to standard output, or to a file in a tree that may have gained
directories for it.  The file can be read, unless its path passes what it replaces. -/
def Delivered (start : Start) (output : Option Path) (text : Text) (exit : Exit) : Prop :=
  match output with
  | none => exit.stdout = Utf8.encode text ∧ exit.tree = start.tree
  | some p => exit.stdout = [] ∧ ∃ made w, Gains p.beside start.tree made ∧
      InPlace made p (Utf8.encode text) w exit.tree ∧
      (w.loc ∉ w.places → exit.tree.read p = .ok (Utf8.encode text))

/-- A run writes nothing and changes nothing.  At most it has made directories for its output. -/
def LeavesNothing (start : Start) (output : Option Path) (exit : Exit) : Prop :=
  exit.stdout = [] ∧ match output with
    | none => exit.tree = start.tree
    | some p => Gains p.beside start.tree exit.tree

/-! ### Getting ready -/

/-- A run does its work when it is ready, and fails otherwise. -/
theorem work_cases (inv : Invocation) (start : Start) :
    (∃ rule store, Ready inv start rule store ∧
      (work inv start).result = (perform inv rule store start).result ∧
      (work inv start).tree = (perform inv rule store start).tree) ∨
    (∀ rule store, ¬Ready inv start rule store) ∧ (∃ f, (work inv start).result = .error f) ∧
      (work inv start).tree = start.tree := by
  unfold work
  cases hp : Settings.path? start.env with
  | error f =>
    refine .inr ⟨?_, ⟨_, rfl⟩, rfl⟩
    rintro _ _ ⟨path, _, _, _, _, hp', -⟩
    simp [hp] at hp'
  | ok path =>
    cases hs : Settings.read start.tree path with
    | error f =>
      refine .inr ⟨?_, ⟨_, by simp only [hs]; rfl⟩, by simp only [hs]⟩
      rintro _ _ ⟨path', _, _, _, _, hp', hs', -⟩
      obtain rfl := Except.ok.inj (hp.symm.trans hp')
      simp [hs] at hs'
    | ok settings =>
      cases hf : fileVars inv start.tree with
      | error f =>
        refine .inr ⟨?_, ⟨_, by simp only [hs]; rfl⟩, by simp only [hs]⟩
        rintro _ _ ⟨_, _, _, _, _, -, -, hf', -⟩
        simp [hf] at hf'
      | ok file =>
        refine .inl ⟨_, _, ⟨path, settings.1, settings.2, file.1, file.2, hp, hs, hf, rfl, rfl⟩, ?_⟩
        simp only [hs, and_self]

theorem Ready.unique {rule rule' : UnsetRule} {store store' : Layered}
    (h : Ready inv start rule store) (h' : Ready inv start rule' store') :
    rule = rule' ∧ store = store' := by
  obtain ⟨path, settings, _, file, _, hp, hs, hf, rfl, rfl⟩ := h
  obtain ⟨path', settings', _, file', _, hp', hs', hf', rfl, rfl⟩ := h'
  obtain rfl := Except.ok.inj (hp.symm.trans hp')
  obtain ⟨rfl, -⟩ := Prod.mk.inj (Except.ok.inj (hs.symm.trans hs'))
  obtain ⟨rfl, -⟩ := Prod.mk.inj (Except.ok.inj (hf.symm.trans hf'))
  exact ⟨rfl, rfl⟩

/-! ### Expanding and writing -/

theorem comesTo_iff {rule : UnsetRule} {store : Layered} (h : Ready inv start rule store) :
    ComesTo inv start inputs text ↔
      (Inputs.expand rule start.tree inputs start.stdin store).result = .ok text := by
  rw [Inputs.expand, Inputs.result_expandAll_eq_ok_iff]
  constructor
  · rintro ⟨rule', store', templates, texts, h', hr, he, ht⟩
    obtain ⟨rfl, rfl⟩ := h.unique h'
    exact ⟨templates, texts, hr, he, ht⟩
  · rintro ⟨templates, texts, hr, he, ht⟩
    exact ⟨rule, store, templates, texts, h, hr, he, ht⟩

theorem run_of_ok (hp : CommandLine.parse start.args = .ok inv)
    (h : (work inv start).result = .ok text) :
    (run start).code = 0 ∧ (run start).stdout = Utf8.encode text ∧
      (run start).tree = (work inv start).tree := by
  simp only [run, hp, finish, h, and_self]

theorem run_of_error (hp : CommandLine.parse start.args = .ok inv) {f : Failure}
    (h : (work inv start).result = .error f) :
    (run start).code = 1 ∧ (run start).stdout = [] ∧
      (run start).tree = (work inv start).tree := by
  simp only [run, hp, finish, h, and_self]

theorem leavesNothing_of_tree_eq {exit : Exit} (ho : exit.stdout = [])
    (ht : exit.tree = start.tree) : LeavesNothing start output exit := by
  refine ⟨ho, ?_⟩
  cases output with
  | none => exact ht
  | some p => exact ht ▸ .refl p.beside start.tree

/-- What becomes of the text of the inputs. -/
theorem perform_expand_cases (hc : inv.command = .expand inputs output) (rule : UnsetRule)
    (store : Layered) (start : Start) :
    let work := perform inv rule store start
    (∃ f f', (Inputs.expand rule start.tree inputs start.stdin store).result = .error f ∧
        work.result = .error f' ∧ work.tree = start.tree) ∨
      ∃ text, (Inputs.expand rule start.tree inputs start.stdin store).result = .ok text ∧
        (output = none ∧ work.result = .ok text ∧ work.tree = start.tree ∨
          ∃ p, output = some p ∧ work.tree = (replaceFile start.tree p text).2 ∧
            ((replaceFile start.tree p text).1 = .ok () ∧ work.result = .ok [] ∨
              ∃ f f', (replaceFile start.tree p text).1 = .error f ∧ work.result = .error f')) := by
  intro work
  cases hr : (Inputs.expand rule start.tree inputs start.stdin store).result with
  | error f =>
    refine .inl ⟨f, f, rfl, ?_⟩
    simp only [work, perform, hc, hr, and_self]
  | ok text =>
    refine .inr ⟨text, rfl, ?_⟩
    cases output with
    | none =>
      refine .inl ⟨rfl, ?_⟩
      simp only [work, perform, hc, hr, and_self]
    | some p =>
      refine .inr ⟨p, rfl, ?_⟩
      simp only [work, perform, hc, hr, true_and]
      cases hw : (replaceFile start.tree p text).1 with
      | ok u => exact .inl ⟨rfl, rfl⟩
      | error f => exact .inr ⟨f, _, rfl, rfl⟩

/-- The expand command delivers all its texts or leaves nothing. -/
theorem expand_delivers_or_leaves_nothing (hp : CommandLine.parse start.args = .ok inv)
    (hc : inv.command = .expand inputs output) :
    (run start).code = 0 ∧
        (∃ text, ComesTo inv start inputs text ∧ Delivered start output text (run start)) ∨
      (run start).code = 1 ∧ LeavesNothing start output (run start) ∧
        ∀ text, ComesTo inv start inputs text →
          ∃ p f, output = some p ∧ (replaceFile start.tree p text).1 = .error f := by
  rcases work_cases inv start with ⟨rule, store, hready, hres, htree⟩ | ⟨hnot, ⟨f, hf⟩, htree⟩
  · rcases perform_expand_cases hc rule store start with
      ⟨f, f', hin, hw, ht⟩ | ⟨text, hin, hout⟩
    · obtain ⟨hcode, hstd, hrun⟩ := run_of_error hp (hres.trans hw)
      refine .inr ⟨hcode, leavesNothing_of_tree_eq hstd (hrun.trans (htree.trans ht)), ?_⟩
      intro text htext
      rw [comesTo_iff hready, hin] at htext
      cases htext
    have htext := (comesTo_iff hready).mpr hin
    rcases hout with ⟨rfl, hw, ht⟩ | ⟨p, rfl, ht, hwritten⟩
    · obtain ⟨hcode, hstd, hrun⟩ := run_of_ok hp (hres.trans hw)
      exact .inl ⟨hcode, text, htext, hstd, hrun.trans (htree.trans ht)⟩
    have hgains := (made_makeDirs start.tree p.beside).gains
    have ht' := htree.trans ht
    rcases hwritten with ⟨hok, hw⟩ | ⟨f, f', herr, hw⟩
    · obtain ⟨hcode, hstd, hrun⟩ := run_of_ok hp (hres.trans hw)
      rcases replaceFile_cases start.tree p text with ⟨-, w, hin⟩ | ⟨⟨f, hf⟩, -⟩
      · rw [← ht', ← hrun] at hin
        exact .inl ⟨hcode, text, htext, hstd, _, w, hgains, hin, hin.read⟩
      · rw [hok] at hf
        cases hf
    · obtain ⟨hcode, hstd, hrun⟩ := run_of_error hp (hres.trans hw)
      rcases replaceFile_cases start.tree p text with ⟨hok, -⟩ | ⟨-, hcwd, hget⟩
      · rw [herr] at hok
        cases hok
      · rw [← ht', ← hrun] at hcwd hget
        refine .inr ⟨hcode, ⟨hstd, hgains.congr hcwd hget⟩, fun text' htext' => ?_⟩
        obtain rfl : text = text' := by
          rw [comesTo_iff hready] at htext htext'
          exact Except.ok.inj (htext.symm.trans htext')
        exact ⟨p, f, rfl, herr⟩
  · obtain ⟨hcode, hstd, hrun⟩ := run_of_error hp hf
    refine .inr ⟨hcode, leavesNothing_of_tree_eq hstd (hrun.trans htree), ?_⟩
    rintro text ⟨rule, store, _, _, hready, -⟩
    exact absurd hready (hnot rule store)

end Runs

/-! ### An output that is an input as well -/

namespace OntoInput

def a : Path := Path.ofText ['a']

def out : Path := Path.ofText "out".toList

def start : Start where
  args := [Utf8.encode "expand".toList, a, out, Utf8.encode "-o".toList, out]
  env := (∅ : Environment).insert "HOME".toList [Path.slash]
  stdin := []
  tree := ((FileTree.mk ∅ [] 0).put [a] (.file (Utf8.encode "${A:=1}".toList))).put [out]
    (.file (Utf8.encode "$A!".toList))

def inv : Invocation := ⟨.expand [a, out] (some out), none, [], false, false, false⟩

theorem parse_start : CommandLine.parse start.args = .ok inv := by
  have h : (CommandLine.parse start.args).toOption = some inv := by decide +kernel
  exact toOption_eq_some_iff.mp h

end OntoInput

open OntoInput

theorem expand_delivers_or_leaves_nothing_onto_input :
    CommandLine.parse start.args = .ok inv ∧ inv.command = .expand [a, out] (some out) ∧
      (run start).code = 0 ∧
      (∃ text, ComesTo inv start [a, out] text ∧ Delivered start (some out) text (run start)) ∧
      (run start).tree.get? [out] = some (.file (Utf8.encode "11!".toList)) := by
  have hcode : (run start).code = 0 := by decide +kernel
  refine ⟨parse_start, rfl, hcode, ?_, by decide +kernel⟩
  rcases expand_delivers_or_leaves_nothing parse_start rfl with ⟨-, h⟩ | ⟨hone, -⟩
  · exact h
  · rw [hcode] at hone
    cases hone

/-! ### An output that its own path passes -/

namespace OntoLink

def d : Path := Path.ofText ['d']

def l : Path := Path.ofText ['l']

def out : Path := Path.ofText "l/../l".toList

def start : Start where
  args := [Utf8.encode "expand".toList, a, Utf8.encode "-o".toList, out]
  env := OntoInput.start.env
  stdin := []
  tree := (((FileTree.mk ∅ [] 0).put [a] (.file (Utf8.encode "new".toList))).put [d] .dir).put [l]
    (.link d)

def inv : Invocation := ⟨.expand [a] (some out), none, [], false, false, false⟩

end OntoLink

/-- The text is in the file that takes the place of the link, and the path of the output, which goes through
the link, leads nowhere. -/
theorem expand_hides_output :
    CommandLine.parse OntoLink.start.args = .ok OntoLink.inv ∧
      (run OntoLink.start).code = 0 ∧ (run OntoLink.start).stdout = [] ∧
      (run OntoLink.start).tree.get? [OntoLink.l] = some (.file (Utf8.encode "new".toList)) ∧
      ∃ e, (run OntoLink.start).tree.read OntoLink.out = .error e := by
  have hp : (CommandLine.parse OntoLink.start.args).toOption = some OntoLink.inv := by decide +kernel
  have hread : ((run OntoLink.start).tree.read OntoLink.out).toOption = none := by decide +kernel
  exact ⟨toOption_eq_some_iff.mp hp, by decide +kernel, by decide +kernel, by decide +kernel,
    toOption_eq_none_iff.mp hread⟩

end Program
end EnvTemplate
