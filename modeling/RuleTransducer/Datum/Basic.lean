import RuleTransducer.Json.Basic
import RuleTransducer.Rule.Basic

/-! Loosely typed values. Rules are declared in several shapes (lists, pairs, texts,
finished items and rules, one-shot sequences), and a declaration may hold anything; a
datum is such a declaration before it is checked. -/

namespace RuleTransducer

/-- A loosely typed value. -/
inductive Datum
  | null
  | bool (b : Bool)
  | int (n : Int)
  | float (x : Binary64)
  | text (s : Text)
  | list (elements : List Datum)
  | tuple (elements : List Datum)
  | dict (fields : List (Text × Datum))
  | bytes (octets : List UInt8)
  /-- A sequence that is produced element by element. Its mark tells it from any other. -/
  | generator (mark : Nat) (elements : List Datum)
  | item (part : Item Datum)
  | rule (items : List (Item Datum))
  deriving Inhabited

namespace Datum

/-- The name of a value's type in messages. -/
def typeName : Datum → String
  | null => "NoneType"
  | bool _ => "bool"
  | int _ => "int"
  | float _ => "float"
  | text _ => "str"
  | list _ => "list"
  | tuple _ => "tuple"
  | dict _ => "dict"
  | bytes _ => "bytes"
  | generator _ _ => "generator"
  | item (.literal _) => "Literal"
  | item (.transform _ _) => "Transform"
  | rule _ => "Rule"

/-- The elements of a value that can be run through: the code points of a text, the names
of a dict, the octets of bytes as integers, the items of a rule. -/
def elements? : Datum → Option (List Datum)
  | text s => some (s.toList.map fun c => text (Text.singleton c))
  | list elements | tuple elements | generator _ elements => some elements
  | dict fields => some (fields.map fun field => text field.1)
  | bytes octets => some (octets.map fun octet => int octet.toNat)
  | rule items => some (items.map item)
  | _ => none

/-- Whether a value counts as present: not null, false, zero or empty. -/
def isPresent : Datum → Bool
  | null => false
  | bool b => b
  | int n => n != 0
  | float x => !x.isZero
  | text s => !s.isEmpty
  | list elements | tuple elements => !elements.isEmpty
  | dict fields => !fields.isEmpty
  | bytes octets => !octets.isEmpty
  | rule items => !items.isEmpty
  | generator _ _ | item _ => true

/-- The text that a value is. -/
def text? : Datum → Option Text
  | text s => some s
  | _ => none

mutual

/-- A JSON document as a value. -/
def ofJson : Json → Datum
  | .null => null
  | .bool b => bool b
  | .int n => int n
  | .float x => float x
  | .text s => text s
  | .array elements => list (ofElements elements)
  | .object fields => dict (ofFields fields)

def ofElements : List Json → List Datum
  | [] => []
  | element :: rest => ofJson element :: ofElements rest

def ofFields : List (Text × Json) → List (Text × Datum)
  | [] => []
  | (name, content) :: rest => (name, ofJson content) :: ofFields rest

end

theorem ofElements_eq_map (elements : List Json) : ofElements elements = elements.map ofJson := by
  induction elements with
  | nil => rfl
  | cons element rest ih => rw [ofElements, ih, List.map_cons]

end Datum

end RuleTransducer
