import RuleTransducer.Text.Basic

/-! The outcome of running a transducer on one input: one output, several, or none. -/

namespace RuleTransducer

/-- The kinds of outcome. -/
inductive OutcomeKind
  | success
  | ambiguous
  | failure
  deriving DecidableEq

def OutcomeKind.name : OutcomeKind → String
  | success => "success"
  | ambiguous => "ambiguous"
  | failure => "failure"

/-- An outcome over a type of outputs. Several outputs stand in the order of their
discovery. -/
inductive Outcome (α : Type)
  | success (output : α)
  | ambiguous (outputs : List α)
  | failure (reason : α)
  deriving DecidableEq

namespace Outcome

variable {α : Type}

/-- The reason given where no path accepts the input. -/
def notPossible : Text := "not possible"

/-- The outcome of a list of outputs. -/
def ofOutputs : List Text → Outcome Text
  | [] => failure notPossible
  | [output] => success output
  | outputs => ambiguous outputs

def kind : Outcome α → OutcomeKind
  | success _ => .success
  | ambiguous _ => .ambiguous
  | failure _ => .failure

/-- The output, if there is exactly one. -/
def output? : Outcome α → Option α
  | success output => some output
  | _ => none

/-- Every output. -/
def outputs : Outcome α → List α
  | success output => [output]
  | ambiguous outputs => outputs
  | failure _ => []

/-- The reason of a failure. -/
def reason? : Outcome α → Option α
  | failure reason => some reason
  | _ => none

/-- Whether the input is accepted, with one output or several. -/
def isAccepted (outcome : Outcome α) : Bool := outcome.kind != .failure

def isAmbiguous (outcome : Outcome α) : Bool := outcome.kind = .ambiguous

/-- The tag of an outcome in its short form. -/
def tag : Outcome α → String
  | success _ => "ok"
  | ambiguous _ => "ambiguous"
  | failure _ => "error"

end Outcome

end RuleTransducer
