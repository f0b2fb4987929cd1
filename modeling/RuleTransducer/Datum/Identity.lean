import RuleTransducer.Datum.Basic

/-! Identity of values. Numbers, truth values among them, are the same if they are equal as
numbers; a sequence that is produced is the same only as itself; other values are the same
if they agree in type and parts. Lists and dicts can change, so they have no identity, and
neither has a value with one of them inside. -/

namespace RuleTransducer.Datum

/-! ### Values without identity -/

mutual

/-- The type in a value that keeps it from having an identity. -/
def unhashable? : Datum → Option String
  | list _ => some "list"
  | dict _ => some "dict"
  | tuple elements => unhashableIn? elements
  | item part => unhashableItem? part
  | rule items => unhashableItems? items
  | _ => none

def unhashableIn? : List Datum → Option String
  | [] => none
  | element :: rest => (unhashable? element).or (unhashableIn? rest)

def unhashableItem? : Item Datum → Option String
  | .literal content => unhashable? content
  | .transform source destination => (unhashable? source).or (unhashable? destination)

def unhashableItems? : List (Item Datum) → Option String
  | [] => none
  | part :: rest => (unhashableItem? part).or (unhashableItems? rest)

end

/-! ### Equal values -/

/-- A number in units of the least positive floating-point number, of which every finite
number is a multiple. -/
def units? : Datum → Option Int
  | bool b => some (if b then Binary64.one.units else 0)
  | int n => some (n * Binary64.one.units)
  | float x => if x.isFinite then some x.units else none
  | _ => none

mutual

/-- Whether two values are the same. -/
def same : Datum → Datum → Bool
  | null, null => true
  | text s, text t => s == t
  | bytes s, bytes t => s == t
  | tuple s, tuple t => sameAll s t
  | generator m _, generator n _ => m == n
  | item a, item b => sameItem a b
  | rule s, rule t => sameItems s t
  | float .notANumber, float .notANumber => true
  | float (.infinite a), float (.infinite b) => a == b
  | a, b => a.units?.isSome && a.units? == b.units?

def sameAll : List Datum → List Datum → Bool
  | [], [] => true
  | a :: s, b :: t => same a b && sameAll s t
  | _, _ => false

def sameItem : Item Datum → Item Datum → Bool
  | .literal a, .literal b => same a b
  | .transform a c, .transform b d => same a b && same c d
  | _, _ => false

def sameItems : List (Item Datum) → List (Item Datum) → Bool
  | [], [] => true
  | a :: s, b :: t => sameItem a b && sameItems s t
  | _, _ => false

end

instance : BEq Datum := ⟨same⟩

end RuleTransducer.Datum
