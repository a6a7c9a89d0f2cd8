import EnvTemplate.Log.Directive

/-!
Which records are written.  A filter is a list of directives, written with commas between them; of
those that concern a record the most specific one decides.
-/
namespace EnvTemplate
namespace Log

abbrev Filter := List Directive

namespace Filter

def all (level : Level) : Filter := [⟨[], none, some level⟩]

/-- The most specific of the directives that concern a record.  Of equal ones the later decides. -/
def directive? (f : Filter) (r : Record) : Option Directive :=
  (f.filter (·.concerns r)).foldl (fun best d =>
    if best.all fun b => (b.specificity d).isLE then some d else best) none

def admits (f : Filter) (r : Record) : Bool :=
  match (f.directive? r).bind (·.level) with
  | some level => r.level.rank ≤ level.rank
  | none => false

def parts : Text → List Text
  | [] => [[]]
  | c :: t =>
    if c = ',' then [] :: parts t
    else
      match parts t with
      | [] => [[c]]
      | part :: more => (c :: part) :: more

/-- Reads a filter.  One without directives admits errors. -/
def parse? (t : Text) : Option Filter :=
  match (parts t).filter (!·.isEmpty) with
  | [] => some (all .error)
  | ps => (ps.mapM Directive.parse?).map (·.filterMap id)

/-- The filter of a run: all but traces if it is to be verbose, else what the environment asks for,
else warnings. -/
def ofRun (verbose : Bool) (asked : Option Text) : Filter :=
  if verbose then all .debug
  else (asked.bind parse?).getD (all .warn)

end Filter
end Log
end EnvTemplate
