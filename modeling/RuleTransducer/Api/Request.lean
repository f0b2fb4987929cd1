import RuleTransducer.Rule.Declared
import RuleTransducer.Text.Utf8

/-! Request bodies and their schema. A body is checked as a whole: every fault is reported
with its place, fields in their order and elements by index, and with the value it is about.
Nothing is converted, except that octets count as the text they encode; unknown fields are
ignored. A text without a limit may have surrogates, one with a limit may not. -/

namespace RuleTransducer.Api

/-- One level on the way from a body to a part of it. -/
inductive Place
  | field (name : String)
  | index (i : Nat)
  deriving DecidableEq

/-- How a part of a body breaks the schema. -/
inductive SchemaFault
  | missing
  | notText
  | notUnicode
  | notList
  | notPair
  | textTooLong (limit : Nat)
  | listTooLong (limit : Nat) (count? : Option Nat)
  | pairTooLong (count? : Option Nat)
  /-- The body itself is no object; `model` names what it should describe. -/
  | notModel (model : String)
  /-- The body of a message is no object. -/
  | notObject
  | notJson (message : String)
  deriving DecidableEq

namespace SchemaFault

/-- The machine-readable kind of a fault. -/
def kind : SchemaFault → String
  | missing => "missing"
  | notText => "string_type"
  | notUnicode => "string_unicode"
  | notList => "list_type"
  | notPair => "tuple_type"
  | textTooLong _ => "string_too_long"
  | listTooLong _ _ | pairTooLong _ => "too_long"
  | notModel _ => "model_type"
  | notObject => "model_attributes_type"
  | notJson _ => "json_invalid"

/-- The count of elements in a message. -/
def counted (count? : Option Nat) : String := (count?.map toString).getD "more"

def message : SchemaFault → String
  | missing => "Field required"
  | notText => "Input should be a valid string"
  | notUnicode => "Input should be a valid string, unable to parse raw data as a unicode string"
  | notList => "Input should be a valid list"
  | notPair => "Input should be a valid tuple"
  | textTooLong limit => s!"String should have at most {limit} characters"
  | listTooLong limit count? =>
    s!"List should have at most {limit} items after validation, not " ++ counted count?
  | pairTooLong count? =>
    "Tuple should have at most 2 items after validation, not " ++ counted count?
  | notModel model => "Input should be a valid dictionary or instance of " ++ model
  | notObject => "Input should be a valid dictionary or object to extract fields from"
  | notJson _ => "JSON decode error"

end SchemaFault

/-- A fault at a place, with the value that has it. What is missing is a fault of the value
that lacks it. -/
structure SchemaError where
  fault : SchemaFault
  place : List Place
  value : Datum

/-- A checked part: its content, or all faults in it. -/
abbrev Checked (α : Type) := Except (List SchemaError) α

namespace Checked

variable {α : Type}

def refuse (place : List Place) (fault : SchemaFault) (value : Datum) : Checked α :=
  .error [⟨fault, place, value⟩]

/-- The contents of parts, or all faults in all of them. -/
def all : List (Checked α) → Checked (List α)
  | [] => .ok []
  | .ok a :: rest =>
    match all rest with
    | .ok as => .ok (a :: as)
    | .error es => .error es
  | .error es :: rest =>
    match all rest with
    | .ok _ => .error es
    | .error later => .error (es ++ later)

/-- The contents of two parts, or all faults in both. -/
def both {β : Type} : Checked α → Checked β → Checked (α × β)
  | .ok a, .ok b => .ok (a, b)
  | .ok _, .error es => .error es
  | .error es, .ok _ => .error es
  | .error es, .error later => .error (es ++ later)

end Checked

/-! ### Parts -/

/-- Checks a text. -/
def checkText (place : List Place) (value : Datum) : Checked Text :=
  match value with
  | .text s => .ok s
  | .bytes octets =>
    match Text.Utf8.decode? octets with
    | some text => .ok (String.ofList text)
    | none => .refuse place .notUnicode value
  | _ => .refuse place .notText value

/-- Checks a text of limited length. -/
def checkShortText (limit : Nat) (place : List Place) (value : Datum) : Checked String :=
  match checkText place value with
  | .error es => .error es
  | .ok text =>
    match text.string? with
    | none => .refuse place .notUnicode value
    | some s => if limit < s.length then .refuse place (.textTooLong limit) value else .ok s

/-- The elements of a value that counts as a list: neither a text nor octets nor a dict. -/
def listElements? : Datum → Option (List Datum)
  | .text _ | .bytes _ | .dict _ => none
  | value => value.elements?

/-- The number of elements of a list or tuple. The other sequences are gone through without
being counted. -/
def count? : Datum → Option Nat
  | .list elements | .tuple elements => some elements.length
  | _ => none

/-- Checks every element of a list. -/
def checkElements {α : Type} (check : List Place → Datum → Checked α) (place : List Place)
    (elements : List Datum) : Checked (List α) :=
  .all (elements.zipIdx.map fun (element, i) => check (place ++ [.index i]) element)

/-- Checks a list. -/
def checkList {α : Type} (check : List Place → Datum → Checked α) (place : List Place)
    (value : Datum) : Checked (List α) :=
  match listElements? value with
  | some elements => checkElements check place elements
  | none => .refuse place .notList value

/-- Checks the member at index `i` of the pair that `value` should be. -/
def checkMember (place : List Place) (value : Datum) (members : List Datum) (i : Nat) :
    Checked Text :=
  match members[i]? with
  | some member => checkText (place ++ [.index i]) member
  | none => .refuse (place ++ [.index i]) .missing value

/-- Checks a pair of texts. -/
def checkPair (place : List Place) (value : Datum) : Checked (Text × Text) :=
  match listElements? value with
  | none => .refuse place .notPair value
  | some members =>
    if 2 < members.length then .refuse place (.pairTooLong (count? value)) value
    else (checkMember place value members 0).both (checkMember place value members 1)

/-- Checks a rule item: a text or a pair of texts. The faults of both readings are
reported where neither fits. -/
def checkItem (place : List Place) (value : Datum) : Checked (Item Text) :=
  match checkText (place ++ [.field "str"]) value,
    checkPair (place ++ [.field "tuple[str, str]"]) value with
  | .ok s, _ => .ok (.literal s)
  | .error _, .ok (source, destination) => .ok (.transform source destination)
  | .error es, .error later => .error (es ++ later)

/-- Checks a required field. -/
def checkField {α : Type} (check : List Place → Datum → Checked α) (place : List Place)
    (fields : List (Text × Datum)) (name : String) : Checked α :=
  match fields.find? (·.1 = (name : Text)) with
  | some (_, value) => check (place ++ [.field name]) value
  | none => .refuse (place ++ [.field name]) .missing (.dict fields)

/-- Checks a field that may be absent or null. -/
def checkOptionalField {α : Type} (check : List Place → Datum → Checked α) (place : List Place)
    (fields : List (Text × Datum)) (name : String) : Checked (Option α) :=
  match fields.find? (·.1 = (name : Text)) with
  | none | some (_, .null) => .ok none
  | some (_, value) => (check (place ++ [.field name]) value).map some

/-! ### Requests -/

/-- The longest input in code points. -/
def maxInputLength : Nat := 4096

/-- The longest name in code points. -/
def maxNameLength : Nat := 200

/-- The most inputs in one batch. -/
def maxBatchSize : Nat := 1000

/-- Asks for a transducer. -/
structure CreateRequest where
  rules : List (List (Item Text))
  name : Option String

/-- Asks to run one input. -/
structure ParseRequest where
  input : String

/-- Asks to run several inputs. -/
structure BatchRequest where
  inputs : List String

/-- Checks a body with fields; `fault` is reported for one without. -/
def checkModel {α : Type} (check : List (Text × Datum) → Checked α) (place : List Place)
    (fault : SchemaFault) (value : Datum) : Checked α :=
  match value with
  | .dict fields => check fields
  | _ => .refuse place fault value

namespace CreateRequest

def modelName : String := "CreateTransducerRequest"

def check (place : List Place) (fields : List (Text × Datum)) : Checked CreateRequest :=
  ((checkField (checkList (checkList checkItem)) place fields "rules").both
    (checkOptionalField (checkShortText maxNameLength) place fields "name")).map
    fun (rules, name) => ⟨rules, name⟩

end CreateRequest

namespace ParseRequest

def modelName : String := "ParseRequest"

def check (place : List Place) (fields : List (Text × Datum)) : Checked ParseRequest :=
  (checkField (checkShortText maxInputLength) place fields "input").map fun input => ⟨input⟩

end ParseRequest

namespace BatchRequest

def modelName : String := "BatchParseRequest"

/-- Checks a list of inputs; one that is too long is not looked into. -/
def checkInputs (place : List Place) (value : Datum) : Checked (List String) :=
  match listElements? value with
  | none => .refuse place .notList value
  | some elements =>
    if maxBatchSize < elements.length then
      .refuse place (.listTooLong maxBatchSize (count? value)) value
    else checkElements (checkShortText maxInputLength) place elements

def check (place : List Place) (fields : List (Text × Datum)) : Checked BatchRequest :=
  (checkField checkInputs place fields "inputs").map fun inputs => ⟨inputs⟩

end BatchRequest

end RuleTransducer.Api
