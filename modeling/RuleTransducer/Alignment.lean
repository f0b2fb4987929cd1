import RuleTransducer.Text.Basic

/-! Alignment of a source text with a destination text. Every edge of a transducer has to
advance the input, so an alignment is one step per code point of the source: texts of
equal length pair up; a longer source maps its surplus to nothing; a shorter source loads
the rest of the destination on its last code point. The last step closes the item. -/

namespace RuleTransducer

/-- One edit step: consume a code point and emit a fragment. The last step of an item is
closing. -/
structure Step where
  input : CodePoint
  output : Text
  closing : Bool
  deriving DecidableEq

/-- The same step inside a rule, where it closes nothing. -/
def Step.opened (step : Step) : Step := { step with closing := false }

/-- There is no alignment of the empty source with a non-empty destination, since such an
insertion consumes no input. -/
structure Insertion where
  destination : Text
  deriving DecidableEq

namespace Alignment

/-- Each code point of a non-empty source with the fragment that it emits. -/
def pairs (source destination : List CodePoint) : List (CodePoint × Text) :=
  if destination.length < source.length then
    source.zip (destination.map Text.singleton) ++
      (source.drop destination.length).map fun c => (c, ("" : Text))
  else if source.length < destination.length then
    let head := source.length - 1
    (source.take head).zip ((destination.take head).map Text.singleton) ++
      (source.drop head).map fun c => (c, Text.ofList (destination.drop head))
  else source.zip (destination.map Text.singleton)

/-- Turns pairs into steps of which the last is closing. -/
def closeLast : List (CodePoint × Text) → List Step
  | [] => []
  | [(input, output)] => [⟨input, output, true⟩]
  | (input, output) :: rest => ⟨input, output, false⟩ :: closeLast rest

/-- The steps that read `source` and emit `destination`. -/
def align (source destination : Text) : Except Insertion (List Step) :=
  match source.toList, destination.toList with
  | [], [] => .ok []
  | [], _ :: _ => .error ⟨destination⟩
  | s, d => .ok (closeLast (pairs s d))

/-- The steps that copy a text. -/
def identity (text : Text) : List Step :=
  closeLast (text.toList.map fun c => (c, Text.singleton c))

end Alignment

end RuleTransducer
