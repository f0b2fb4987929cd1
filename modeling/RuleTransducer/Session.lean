import RuleTransducer.Compilation

/-! Sessions: compiled transducers under identifiers. A session keeps the rules it was
created with, its graph and a count of the inputs run on it; its graph never changes
after creation. A creation that fails registers nothing and uses up no identifier. -/

namespace RuleTransducer

/-- A compiled transducer that is registered. -/
structure Session where
  id : String
  name : Option String
  /-- The rules in raw form. -/
  rules : List Datum
  graph : Graph Text
  /-- The number of inputs run so far. -/
  parseCount : Nat

/-- The active sessions in the order of their creation. -/
structure Registry where
  /-- The number of sessions created so far, active or not. -/
  issued : Nat
  sessions : List Session

/-- A declared rule in raw form: a rule becomes the list of its raw items, a text stays,
any other run of elements becomes a list. -/
def Datum.rawRule (declared : Datum) : Except DeclarationError Datum :=
  match declared with
  | rule items => .ok (list (items.map Item.raw))
  | text _ => .ok declared
  | _ => declared.elements.map list

/-- The elements of a value as declared rules in raw form. -/
def Datum.rawRules (rules : Datum) : Except DeclarationError (List Datum) := do
  (← rules.elements).mapM rawRule

namespace Registry

def empty : Registry := ⟨0, []⟩

/-- The identifier of the `n`-th session, where no other identifiers are chosen. -/
def idOf (n : Nat) : String := "t" ++ toString n

def ids (r : Registry) : List String := r.sessions.map Session.id

/-- The active session of an identifier. -/
def find? (r : Registry) (id : String) : Option Session :=
  r.sessions.find? fun session => session.id = id

/-- Brings all rules into raw form, compiles them and registers the result; the `n`-th session
created gets the `n`-th of the fresh identifiers. -/
def create (r : Registry) (rules : Datum) (name : Option String) (fresh : Nat → String := idOf) :
    Registry × Except RuleError Session :=
  match rules.rawRules with
  | .error e => (r, .error (.build (.declaration e)))
  | .ok rules =>
    match compile? rules with
    | .error e => (r, .error e)
    | .ok graph =>
      let session := ⟨fresh (r.issued + 1), name, rules, graph, 0⟩
      (⟨r.issued + 1, r.sessions ++ [session]⟩, .ok session)

/-- Drops a session; tells whether it was active. -/
def close (r : Registry) (id : String) : Registry × Bool :=
  ({ r with sessions := r.sessions.filter fun session => session.id ≠ id }, (r.find? id).isSome)

/-- Adds `n` to the count of a session. -/
def count (r : Registry) (id : String) (n : Nat) : Registry :=
  { r with
    sessions := r.sessions.map fun session =>
      if session.id = id then { session with parseCount := session.parseCount + n } else session }

/-- Runs one input on a session. -/
def parse (r : Registry) (id : String) (text : Text) : Registry × Option (Outcome Text) :=
  match r.find? id with
  | some session => (r.count id 1, some (session.graph.parse text))
  | none => (r, none)

/-- Runs several inputs on a session. -/
def parseBatch (r : Registry) (id : String) (texts : List Text) :
    Registry × Option (List (Outcome Text)) :=
  match r.find? id with
  | some session => (r.count id texts.length, some (session.graph.parseBatch texts))
  | none => (r, none)

/-- The size of a session's graph. -/
def stats? (r : Registry) (id : String) : Option Stats :=
  (r.find? id).map fun session => session.graph.stats

end Registry

end RuleTransducer
