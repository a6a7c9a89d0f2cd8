import EnvTemplate.Program
import EnvTemplate.Proofs.Expansion.Trace
import EnvTemplate.Proofs.TemplateTree.Record

/-! The segments that a run expands, over all its templates, each with the store that it is expanded
from.  A store is handed from one segment to the next, so the first placeholder of a run finds the store
that the run starts with, and the environment under that store stays to the end. -/
namespace EnvTemplate

open VariableStore

section Follows

variable {σ : Type} [VariableStore σ] {rule : UnsetRule}

/-- Segments that are expanded one after another, from a first store to a last one.  Each one is expanded
from the store that the one before it leaves. -/
inductive Follows (rule : UnsetRule) : σ → List (Segment × σ) → σ → Prop
  | nil (s : σ) : Follows rule s [] s
  | cons {s s' : σ} {g : Segment} {steps : List (Segment × σ)}
      (h : Follows rule (Segment.expand rule s g).store steps s') : Follows rule s ((g, s) :: steps) s'

namespace Follows

variable {s s' s'' : σ} {steps more : List (Segment × σ)}

theorem append (h : Follows rule s steps s') (h' : Follows rule s' more s'') :
    Follows rule s (steps ++ more) s'' := by
  induction h with
  | nil => exact h'
  | cons _ ih => exact .cons (ih h')

theorem ofSegments (rule : UnsetRule) (gs : List Segment) (s : σ) :
    Follows rule s (Segment.trace rule gs s) (Segment.expandAll rule gs s).store := by
  induction gs generalizing s with
  | nil => exact .nil s
  | cons g gs ih =>
    cases hr : (Segment.expand rule s g).result with
    | error e =>
      rw [Segment.trace_cons_of_error hr, Segment.expandAll_cons_of_error hr]
      exact .cons (.nil _)
    | ok text =>
      rw [Segment.trace_cons_of_ok hr, (Segment.expandAll_cons_of_ok hr gs).1]
      exact .cons (ih _)

theorem ofTemplate (rule : UnsetRule) (t : Text) (s : σ) :
    Follows rule s (trace rule t s) (expand rule t s).store := by
  rw [store_expand_eq]
  exact ofSegments rule _ s

end Follows

/-- The first placeholder of some segments, and the store that it is expanded from. -/
def firstPlaceholder? (steps : List (Segment × σ)) : Option (Segment × σ) :=
  steps.find? fun step => step.1.name?.isSome

theorem Follows.store_firstPlaceholder? {s s' : σ} {steps : List (Segment × σ)}
    (h : Follows rule s steps s') {step : Segment × σ} (hf : firstPlaceholder? steps = some step) :
    step.2 = s := by
  induction h with
  | nil => cases hf
  | @cons s s' g steps _ ih =>
    cases g with
    | literal text => exact ih hf
    | _ =>
      cases hf
      rfl

theorem Layered.env_expandSegment (rule : UnsetRule) (s : Layered) (g : Segment) :
    (Segment.expand rule s g).store.env = s.env := by
  rcases Segment.store_expand rule s g with h | ⟨n, operand, -, -, h⟩
  · rw [h]
  · rw [h, env_set]

/-- The environment is the same in all stores. -/
theorem Follows.env_eq {s s' : Layered} {steps : List (Segment × Layered)}
    (h : Follows rule s steps s') : (∀ step ∈ steps, step.2.env = s.env) ∧ s'.env = s.env := by
  induction h with
  | nil => simp
  | @cons s s' g steps _ ih =>
    rw [Layered.env_expandSegment] at ih
    refine ⟨fun step hs => ?_, ih.2⟩
    rcases List.mem_cons.mp hs with rfl | hs
    · rfl
    · exact ih.1 step hs

end Follows

/-! ### Both commands -/

section Commands

variable {σ : Type} [VariableStore σ]

namespace Inputs

def steps (rule : UnsetRule) (tree : FileTree) : List Path → Bytes → σ → List (Segment × σ)
  | [], _, _ => []
  | input :: inputs, stdin, s =>
    match source tree stdin input with
    | .error _ => []
    | .ok text =>
      trace rule text s ++ match (EnvTemplate.expand rule text s).result with
        | .error _ => []
        | .ok _ =>
          steps rule tree inputs (if input = standard then [] else stdin)
            (EnvTemplate.expand rule text s).store

theorem follows_steps (rule : UnsetRule) (tree : FileTree) (inputs : List Path) (stdin : Bytes)
    (s : σ) :
    Follows rule s (steps rule tree inputs stdin s) (expandAll rule tree inputs stdin s).store := by
  induction inputs generalizing stdin s with
  | nil => exact .nil s
  | cons input inputs ih =>
    rw [steps, expandAll]
    cases source tree stdin input with
    | error f => exact .nil s
    | ok text =>
      have hfirst := Follows.ofTemplate rule text s
      cases hr : (EnvTemplate.expand rule text s).result with
      | error e =>
        simp only [Outcome.andThen, Outcome.during, hr, mapError_error, List.append_nil]
        exact hfirst
      | ok u =>
        simp only [Outcome.andThen, Outcome.during, hr, mapError_ok]
        exact hfirst.append (ih _ _)

end Inputs

namespace TemplateTree

def fileSteps (rule : UnsetRule) (f : Found) (w : World σ) : List (Segment × σ) :=
  match w.tree.readText f.path with
  | .error _ => []
  | .ok text => trace rule text w.store

def steps (rule : UnsetRule) (templates out : Path) (w : World σ) : List (Segment × σ) :=
  (record rule templates out w).flatMap fun step => fileSteps rule step.1 step.2

theorem follows_fileSteps (rule : UnsetRule) (stage : Path) (f : Found) (w : World σ) :
    Follows rule w.store (fileSteps rule f w) (renderFile rule stage f w).2.store := by
  cases h : w.tree.readText f.path with
  | error e =>
    obtain ⟨failure, hr⟩ := renderFile_of_error rule stage h
    rw [fileSteps, h, hr]
    exact .nil _
  | ok text =>
    rw [fileSteps, h, (renderFile_of_ok rule stage h).1]
    exact .ofTemplate rule text w.store

theorem Renders.follows {rule : UnsetRule} {stage : Path} {w last : World σ}
    {l : List (Found × World σ)} {r : Except Failure Unit} (h : Renders rule stage w l r last) :
    Follows rule w.store (l.flatMap fun step => fileSteps rule step.1 step.2) last.store := by
  induction h with
  | nil w => exact .nil w.store
  | note _ _ ih => exact ih
  | @ok f w w' _ _ _ hr _ ih =>
    have hfile := follows_fileSteps rule stage f w
    rw [hr] at hfile
    rw [List.flatMap_cons]
    exact hfile.append ih
  | @error f w w' _ hr =>
    have hfile := follows_fileSteps rule stage f w
    rw [hr] at hfile
    rw [List.flatMap_singleton]
    exact hfile

theorem follows_steps (rule : UnsetRule) (templates out : Path) (w : World σ) :
    Follows rule w.store (steps rule templates out w) (render rule templates out w).2.store := by
  cases hd : w.tree.isDir templates with
  | false =>
    simp only [steps, record, render, hd]
    exact .nil _
  | true =>
    rcases hp : Stage.prepare w.tree out with ⟨f | x, tree⟩
    · simp only [steps, record, render, hd, hp]
      exact .nil _
    · obtain ⟨r, last, hrun, hstore, -⟩ := renders_record hd hp rule
      rw [hstore]
      exact hrun.follows

end TemplateTree

end Commands

namespace Program

/-- The segments that a run expands. -/
def steps (inv : Invocation) (rule : UnsetRule) (store : Layered) (start : Start) :
    List (Segment × Layered) :=
  match inv.command with
  | .expand inputs _ =>
    Inputs.steps rule start.tree (if inputs.isEmpty then [Inputs.standard] else inputs) start.stdin store
  | .render templates out => TemplateTree.steps rule templates out ⟨start.tree, store, []⟩

def last (inv : Invocation) (rule : UnsetRule) (store : Layered) (start : Start) : Layered :=
  match inv.command with
  | .expand inputs _ => (Inputs.expand rule start.tree inputs start.stdin store).store
  | .render templates out => (TemplateTree.render rule templates out ⟨start.tree, store, []⟩).2.store

theorem follows_steps (inv : Invocation) (rule : UnsetRule) (store : Layered) (start : Start) :
    Follows rule store (steps inv rule store start) (last inv rule store start) := by
  unfold steps last
  cases inv.command with
  | expand inputs output => exact Inputs.follows_steps rule start.tree _ start.stdin store
  | render templates out => exact TemplateTree.follows_steps rule templates out ⟨start.tree, store, []⟩

end Program
end EnvTemplate
