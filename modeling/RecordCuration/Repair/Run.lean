import RecordCuration.Repair.Pass
import RecordCuration.Validator

/-!
Repair runs: validation and repair by turns until nothing is wrong, nothing more can be mended, or
the passes are used up.

A run does not stop when the number of issues fails to shrink: a value put into a list is checked
as an item next time, which can bring new issues to light.
-/

namespace RecordCuration

inductive RepairOutcome where
  | valid
  /-- The last pass wrote nothing. -/
  | unrepairable (remaining : List Issue)
  | passLimit (remaining : List Issue)

namespace RepairOutcome

def remaining : RepairOutcome → List Issue
  | .valid => []
  | .unrepairable is => is
  | .passLimit is => is

def isValid : RepairOutcome → Bool
  | .valid => true
  | _ => false

end RepairOutcome

/-- How often rules were used, by rule name in alphabetical order. -/
abbrev RuleCounts := List (String × Nat)

namespace RuleCounts

/-- One more use of a rule. -/
def add (rule : String) : RuleCounts → RuleCounts
  | [] => [(rule, 1)]
  | (name, n) :: counts =>
    if rule = name then (name, n + 1) :: counts
    else if rule < name then (rule, 1) :: (name, n) :: counts
    else (name, n) :: add rule counts

/-- The uses that fixes stand for, each in turn. -/
def count (counts : RuleCounts) (fixes : List AppliedFix) : RuleCounts :=
  fixes.foldl (fun counts fix => counts.add fix.rule) counts

end RuleCounts

/-- How a run ended, the document then, how many passes were made, how often each rule was used,
and what was written. -/
structure RepairRun where
  outcome : RepairOutcome
  document : Json
  passes : Nat
  ruleCounts : RuleCounts
  fixes : List AppliedFix

/-- What a run has counted so far, and what it has written. -/
structure Tally where
  passes : Nat
  ruleCounts : RuleCounts
  fixes : List AppliedFix

namespace Tally

def zero : Tally := ⟨0, [], []⟩

/-- One more pass is begun. -/
def begun (t : Tally) : Tally := { t with passes := t.passes + 1 }

/-- A pass wrote something. -/
def wrote (t : Tally) (fixes : List AppliedFix) : Tally :=
  { t with ruleCounts := t.ruleCounts.count fixes, fixes := t.fixes ++ fixes }

/-- The run that ends here. -/
def ended (t : Tally) (outcome : RepairOutcome) (doc : Json) : RepairRun :=
  ⟨outcome, doc, t.passes, t.ruleCounts, t.fixes⟩

end Tally

/-- Mends documents by the rules of a catalogue, in at most `maxPasses` passes each. -/
structure Repairer where
  validator : Validator
  catalogue : Catalogue
  maxPasses : Nat

namespace Repairer

def standardPasses : Nat := 32

/-- The standard rules and limit. -/
def standard (validator : Validator) : Repairer := ⟨validator, .standard, standardPasses⟩

/-- Repairs a document with a number of passes left, after what was counted before. -/
def goOn (validator : Validator) (catalogue : Catalogue) :
    Nat → Tally → Json → Except RepairFault RepairRun
  | 0, t, doc =>
    match validator.validate doc with
    | [] => .ok (t.ended .valid doc)
    | issues => .ok (t.ended (.passLimit issues) doc)
  | left + 1, t, doc =>
    match validator.validate doc with
    | [] => .ok (t.ended .valid doc)
    | issues =>
      match catalogue.pass issues doc with
      | (_, .error fault) => .error fault
      | (doc, .ok p) =>
        if p.applied then goOn validator catalogue left (t.begun.wrote p.fixes) doc
        else .ok (t.begun.ended (.unrepairable issues) doc)

/-- Repairs a document with a number of passes. -/
def runWith (validator : Validator) (catalogue : Catalogue) (passes : Nat) (doc : Json) :
    Except RepairFault RepairRun :=
  goOn validator catalogue passes .zero doc

def run (r : Repairer) (doc : Json) : Except RepairFault RepairRun :=
  runWith r.validator r.catalogue r.maxPasses doc

end Repairer

end RecordCuration
