/-! Paths cut at their slashes. -/

namespace RuleTransducer.Text

/-- The segments between slashes. There is one more of them than there are slashes. -/
def segments : List Char → List (List Char)
  | [] => [[]]
  | c :: rest =>
    if c = '/' then [] :: segments rest
    else
      match segments rest with
      | [] => [[c]]
      | first :: later => (c :: first) :: later

/-- Segments with slashes between them. -/
def joinSegments : List (List Char) → List Char
  | [] => []
  | [segment] => segment
  | segment :: rest => segment ++ '/' :: joinSegments rest

/-- The segments of a path as texts. -/
def pathSegments (path : String) : List String := (segments path.toList).map String.ofList

end RuleTransducer.Text
