import RuleTransducer.Datum.Identity
import RuleTransducer.Datum.Part
import RuleTransducer.Datum.Printed

/-! Fragments, what edges emit. The fragments of validated rules are texts. A rule that is
built without validation may emit other values, as long as they have an identity by which
vertices are told apart. -/

namespace RuleTransducer

/-- A type of fragments. -/
class Fragment (α : Type) where
  /-- A text as a fragment. -/
  ofText : Text → α
  /-- A value as a fragment, if it can be one. -/
  ofDatum : Datum → Except PartError α
  /-- The text of a fragment. -/
  written : α → Text

namespace Datum

/-- The type of a value that cannot be joined to a text. -/
def misfit? (value : Datum) : Option String :=
  match value with
  | text _ => none
  | _ => some value.typeName

/-- A value that has an identity. -/
def identified (value : Datum) : Except PartError Datum :=
  match value.unhashable? with
  | some typeName => .error (.unhashable typeName)
  | none => .ok value

end Datum

namespace Fragment

/-- Texts as fragments; no other value can be one. Where the type of fragments is left open,
it is this one. -/
@[default_instance] instance : Fragment Text where
  ofText s := s
  ofDatum value := do
    let value ← value.identified
    match value.text? with
    | some s => return s
    | none => throw (.notText value.typeName)
  written s := s

/-- Any values as fragments. -/
instance : Fragment Datum where
  ofText := .text
  ofDatum := Datum.identified
  written value := value.text?.getD value.printed

@[simp] theorem ofText_text (s : Text) : (ofText s : Text) = s := rfl

@[simp] theorem written_text (s : Text) : written s = s := rfl

@[simp] theorem written_ofText_datum (s : Text) : written (ofText s : Datum) = s := rfl

end Fragment

end RuleTransducer
