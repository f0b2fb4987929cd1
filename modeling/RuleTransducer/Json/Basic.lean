import RuleTransducer.Number.Binary64
import RuleTransducer.Text.Basic

/-! JSON documents. Integers are unbounded and kept apart from floating-point numbers,
and an object is its fields in order, each name once. -/

namespace RuleTransducer

/-- A JSON document. -/
inductive Json
  | null
  | bool (b : Bool)
  | int (n : Int)
  | float (x : Binary64)
  | text (s : Text)
  | array (elements : List Json)
  | object (fields : List (Text × Json))
  deriving Inhabited

namespace Json

/-- The value of a name among fields. -/
def lookup (name : Text) (fields : List (Text × Json)) : Option Json :=
  (fields.find? (·.1 = name)).map (·.2)

/-- The field of an object; no other document has one. -/
def field? (document : Json) (name : Text) : Option Json :=
  match document with
  | .object fields => lookup name fields
  | _ => none

/-- Sets a field: a new name goes to the end, a known one keeps its place and takes the
new value. -/
def setField (fields : List (Text × Json)) (name : Text) (value : Json) :
    List (Text × Json) :=
  match fields with
  | [] => [(name, value)]
  | (known, old) :: rest =>
    if known = name then (known, value) :: rest else (known, old) :: setField rest name value

/-- An array of texts. -/
def texts (ss : List Text) : Json := .array (ss.map .text)

/-- An array of texts without surrogates. -/
def strings (ss : List String) : Json := .array (ss.map fun s : String => .text s)

/-- A text, or null where there is none. -/
def text? (s : Option Text) : Json := (s.map .text).getD .null

/-- A text without surrogates, or null where there is none. -/
def string? (s : Option String) : Json := (s.map fun s : String => .text s).getD .null

/-- A natural number. -/
def nat (n : Nat) : Json := .int n

/-! ### Documents as a whole -/

mutual

/-- Whether all texts and names in a document are without surrogates, so that it can be written in
UTF-8. -/
def isScalar : Json → Bool
  | .null | .bool _ | .int _ | .float _ => true
  | .text s => s.isScalar
  | .array elements => areScalar elements
  | .object fields => areScalarFields fields

def areScalar : List Json → Bool
  | [] => true
  | element :: rest => element.isScalar && areScalar rest

def areScalarFields : List (Text × Json) → Bool
  | [] => true
  | (name, content) :: rest => name.isScalar && content.isScalar && areScalarFields rest

end

mutual

/-- The number of levels of a document. A document with parts has one level more than the deepest
of them, and one without parts has one level. The names in an object do not count. -/
def levels : Json → Nat
  | .null | .bool _ | .int _ | .float _ | .text _ => 1
  | .array elements => levelsIn elements + 1
  | .object fields => levelsInFields fields + 1

/-- The most levels among documents, none for no documents. -/
def levelsIn : List Json → Nat
  | [] => 0
  | element :: rest => max element.levels (levelsIn rest)

def levelsInFields : List (Text × Json) → Nat
  | [] => 0
  | (_, content) :: rest => max content.levels (levelsInFields rest)

end

@[simp] theorem isScalar_text (s : Text) : (text s).isScalar = s.isScalar := by rw [isScalar]

@[simp] theorem isScalar_array (elements : List Json) :
    (array elements).isScalar = elements.all isScalar := by
  rw [isScalar]
  induction elements with
  | nil => rfl
  | cons element elements ih => rw [areScalar, ih, List.all_cons]

@[simp] theorem isScalar_object (fields : List (Text × Json)) :
    (object fields).isScalar = fields.all fun field => field.1.isScalar && field.2.isScalar := by
  rw [isScalar]
  induction fields with
  | nil => rfl
  | cons field fields ih => rw [areScalarFields, ih, List.all_cons]

@[simp] theorem isScalar_null : null.isScalar = true := by rw [isScalar]

@[simp] theorem isScalar_bool (b : Bool) : (bool b).isScalar = true := by rw [isScalar]

@[simp] theorem isScalar_nat (n : Nat) : (nat n).isScalar = true := by rw [nat, isScalar]

@[simp] theorem isScalar_texts (ss : List Text) :
    (texts ss).isScalar = ss.all Text.isScalar := by
  rw [texts, isScalar_array, List.all_map]
  exact congrArg ss.all (funext isScalar_text)

@[simp] theorem isScalar_strings (ss : List String) : (strings ss).isScalar = true := by
  simp [strings]

@[simp] theorem isScalar_string? (s : Option String) : (string? s).isScalar = true := by
  cases s <;> simp [string?]

theorem levels_lt_of_mem {part : Json} {elements : List Json} (h : part ∈ elements) :
    part.levels < (array elements).levels := by
  rw [levels, Nat.lt_succ_iff]
  induction elements with
  | nil => exact absurd h List.not_mem_nil
  | cons first elements ih =>
    rw [levelsIn]
    obtain rfl | hlater := List.mem_cons.mp h
    · exact Nat.le_max_left _ _
    · exact Nat.le_trans (ih hlater) (Nat.le_max_right _ _)

end Json

end RuleTransducer
