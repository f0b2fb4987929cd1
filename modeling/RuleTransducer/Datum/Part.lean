import RuleTransducer.Datum.Basic

/-! Values in the place of an item's texts. The parts of a finished item may be any values;
an alignment then takes their elements for code points, and fails at the first value that
cannot serve: one without a length, one that cannot be cut, one that is joined to a text
though it is none. -/

namespace RuleTransducer

/-- Why a part of an item cannot serve as a text. -/
inductive PartError
  | noLength (typeName : String)
  | notSliceable
  | notSubscriptable (typeName : String)
  /-- A value of the named type is joined to a text. -/
  | notText (typeName : String)
  /-- A value of the named type, or with one inside, is to identify a vertex. -/
  | unhashable (typeName : String)
  /-- A value of the named type stands among texts that are joined. -/
  | notTextAt (index : Nat) (typeName : String)
  deriving DecidableEq

def PartError.message : PartError → String
  | noLength typeName => s!"object of type '{typeName}' has no len()"
  | notSliceable => "unhashable type: 'slice'"
  | notSubscriptable typeName => s!"'{typeName}' object is not subscriptable"
  | notText typeName => s!"can only concatenate str (not \"{typeName}\") to str"
  | unhashable typeName => s!"unhashable type: '{typeName}'"
  | notTextAt index typeName =>
    s!"sequence item {index}: expected str instance, {typeName} found"

namespace Datum

/-- The elements of a value that has a length. -/
def measured (value : Datum) : Except PartError (List Datum) :=
  match value with
  | generator _ _ => .error (.noLength value.typeName)
  | _ =>
    match value.elements? with
    | some elements => .ok elements
    | none => .error (.noLength value.typeName)

/-- The value of the same type with other elements, if the type can be cut. -/
def withElements (value : Datum) (elements : List Datum) : Except PartError Datum :=
  match value with
  | text _ => .ok (text (Text.join (elements.filterMap text?)))
  | list _ => .ok (list elements)
  | tuple _ => .ok (tuple elements)
  | bytes _ => .ok (bytes (elements.filterMap fun element =>
      match element with
      | int n => some n.toNat.toUInt8
      | _ => none))
  | dict _ => .error .notSliceable
  | _ => .error (.notSubscriptable value.typeName)

/-- The code point and fragment pairs of an alignment over the elements of two values. -/
def alignedPairs (source destination : Datum) : Except PartError (List (Datum × Datum)) := do
  let s ← source.measured
  let d ← destination.measured
  if d.length < s.length then
    let surplus := s.drop d.length
    let _ ← source.withElements surplus
    return s.zip d ++ surplus.map fun value => (value, text "")
  else if s.length < d.length then
    let head := s.length - 1
    let last ← source.withElements (s.drop head)
    let rest ← destination.withElements (d.drop head)
    return (s.take head).zip (d.take head) ++ [(last, rest)]
  else return s.zip d

/-- The joined texts of values, or the first value that is no text. -/
def joinTexts (values : List Datum) : Except PartError Text :=
  match values.zipIdx.find? fun entry => entry.1.text?.isNone with
  | some (value, i) => .error (.notTextAt i value.typeName)
  | none => .ok (Text.join (values.filterMap text?))

end Datum

end RuleTransducer
