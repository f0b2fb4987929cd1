import RuleTransducer.Datum.Basic

/-! Values in error reports. A report is a JSON document, so a value is shown in it as far as JSON
can: every sequence as an array, and a number that is not finite as null. Of a dict the fields are
left out whose names mark them as internal. -/

namespace RuleTransducer.Datum

/-- How the names of internal fields start. -/
def internalMark : Text := "_sa"

def isInternal (name : Text) : Bool := internalMark.toList.isPrefixOf name.toList

mutual

/-- A value as a report shows it. Octets, finished items and rules are in no document, so that no
report is about them. -/
def reported : Datum → Json
  | null | bytes _ | item _ | rule _ => .null
  | bool b => .bool b
  | int n => .int n
  | float x => if x.isFinite then .float x else .null
  | text s => .text s
  | list elements | tuple elements | generator _ elements => .array (reportedElements elements)
  | dict fields => .object (reportedFields fields)

def reportedElements : List Datum → List Json
  | [] => []
  | element :: rest => reported element :: reportedElements rest

def reportedFields : List (Text × Datum) → List (Text × Json)
  | [] => []
  | (name, content) :: rest =>
    if isInternal name then reportedFields rest
    else (name, reported content) :: reportedFields rest

end

theorem reportedElements_eq_map (elements : List Datum) :
    reportedElements elements = elements.map reported := by
  induction elements with
  | nil => rfl
  | cons element rest ih => rw [reportedElements, ih, List.map_cons]

end RuleTransducer.Datum
