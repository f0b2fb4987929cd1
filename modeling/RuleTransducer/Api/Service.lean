import RuleTransducer.Api.Request
import RuleTransducer.Datum.Reported
import RuleTransducer.Session

/-! The service: requests on the registry of sessions, and the replies with their JSON
form. A request is checked before the transducer it names is looked up. -/

namespace RuleTransducer.Api

/-- Why a request was refused. -/
inductive Refusal
  | unknownTransducer (id : String)
  | invalidRules (errors : List String)

/-- A registered transducer, with the warnings on its rules when it is new. -/
structure TransducerInfo where
  id : String
  name : Option String
  ruleCount : Nat
  parseCount : Nat
  stats : Stats
  warnings : List String

/-- One input and its outcome. -/
structure ResultInfo where
  input : String
  outcome : Outcome Text

/-- The reply to a request. -/
inductive Reply
  | transducer (info : TransducerInfo)
  | parsed (id : String) (result : ResultInfo)
  | batch (id : String) (results : List ResultInfo)
  | stats (stats : Stats)
  | refused (refusal : Refusal)

/-! ### Operations -/

/-- What there is to say about a session. -/
def TransducerInfo.ofSession (session : Session) (warnings : List String) : TransducerInfo :=
  ⟨session.id, session.name, session.rules.length, session.parseCount, session.graph.stats,
    warnings⟩

/-- The raw form of a rule in a request. -/
def rawRequestRule (items : List (Item Text)) : Datum :=
  .list (items.map fun item => (item.map .text).raw)

/-- Validates the rules and registers a transducer for them. Rules that pass validation and still
do not compile get no reply. -/
def create (r : Registry) (request : CreateRequest) (fresh : Nat → String := Registry.idOf) :
    Registry × Except RuleError Reply :=
  let rules := request.rules.map rawRequestRule
  let findings := validateRules rules
  if findings.isValid then
    let (r, created) := r.create (.list rules) request.name fresh
    (r, created.map fun session => .transducer (.ofSession session findings.warnings))
  else (r, .ok (.refused (.invalidRules findings.errors)))

def get (r : Registry) (id : String) : Reply :=
  match r.find? id with
  | some session => .transducer (.ofSession session [])
  | none => .refused (.unknownTransducer id)

def stats (r : Registry) (id : String) : Reply :=
  match r.stats? id with
  | some stats => .stats stats
  | none => .refused (.unknownTransducer id)

/-- Runs one input. -/
def parse (r : Registry) (id : String) (request : ParseRequest) : Registry × Reply :=
  match r.parse id request.input with
  | (r, some outcome) => (r, .parsed id ⟨request.input, outcome⟩)
  | (r, none) => (r, .refused (.unknownTransducer id))

/-- Runs several inputs, each on its own. -/
def parseBatch (r : Registry) (id : String) (request : BatchRequest) : Registry × Reply :=
  match r.parseBatch id (request.inputs.map Text.ofString) with
  | (r, some outcomes) => (r, .batch id (request.inputs.zipWith ResultInfo.mk outcomes))
  | (r, none) => (r, .refused (.unknownTransducer id))

/-! ### Replies in JSON -/

def apiVersion : String := "v1"

def statsJson (s : Stats) : Json :=
  .object [("vertex_count", .nat s.vertices), ("edge_count", .nat s.edges),
    ("terminal_vertices", .nat s.terminals)]

def ResultInfo.json (result : ResultInfo) : Json :=
  .object [("input", .text result.input), ("status", .text result.outcome.kind.name),
    ("accepted", .bool result.outcome.isAccepted), ("output", .text? result.outcome.output?),
    ("outputs", .texts result.outcome.outputs), ("error", .text? result.outcome.reason?)]

def TransducerInfo.json (info : TransducerInfo) : Json :=
  .object [("transducer_id", .text info.id), ("name", .string? info.name),
    ("rule_count", .nat info.ruleCount), ("parse_count", .nat info.parseCount),
    ("stats", statsJson info.stats), ("warnings", .strings info.warnings)]

/-- An error reply: its message, its code and its details. -/
def errorJson (message code : String) (details : Json) : Json :=
  .object [("error", .text message), ("error_code", .text code), ("details", details),
    ("api_version", .text apiVersion)]

def Refusal.json : Refusal → Json
  | unknownTransducer id =>
    errorJson (s!"Transducer {id} not found") "TRANSDUCER_NOT_FOUND" .null
  | invalidRules errors =>
    errorJson "Invalid rules" "INVALID_RULE" (.object [("errors", .strings errors)])

namespace Reply

/-- The name of the reply's model. -/
def modelName : Reply → String
  | transducer _ => "TransducerResponse"
  | parsed _ _ => "ParseResponse"
  | batch _ _ => "BatchParseResponse"
  | stats _ => "StatsInfo"
  | refused _ => "ErrorResponse"

/-- The number of results that are not failures. -/
def acceptedCount (results : List ResultInfo) : Nat :=
  results.countP fun result => result.outcome.isAccepted

def json : Reply → Json
  | transducer info => info.json
  | parsed id result => .object [("transducer_id", .text id), ("result", result.json)]
  | batch id results =>
    .object [("transducer_id", .text id), ("results", .array (results.map ResultInfo.json)),
      ("accepted_count", .nat (acceptedCount results))]
  | stats s => statsJson s
  | refused refusal => refusal.json

end Reply

/-- The path of a place: field names and indexes. -/
def Place.json : Place → Json
  | field name => .text name
  | index i => .nat i

/-- What a fault tells besides its message. -/
def SchemaFault.context : SchemaFault → List (Text × Json)
  | textTooLong limit => [("max_length", .nat limit)]
  | listTooLong limit count? => sizes "List" limit count?
  | pairTooLong count? => sizes "Tuple" 2 count?
  | notModel model => [("class_name", .text model)]
  | notJson message => [("error", .text message)]
  | _ => []
where
  sizes (sequence : String) (limit : Nat) (count? : Option Nat) : List (Text × Json) :=
    [("field_type", .text sequence), ("max_length", .nat limit),
      ("actual_length", (count?.map Json.nat).getD .null)]

/-- The report of an error: its kind, its place, its message, the value that it is about, and what
there is to tell besides. -/
def SchemaError.json (e : SchemaError) : Json :=
  let fields : List (Text × Json) := [("type", .text e.fault.kind),
    ("loc", .array (e.place.map Place.json)), ("msg", .text e.fault.message),
    ("input", e.value.reported)]
  let context := e.fault.context
  .object (if context.isEmpty then fields else fields.concat ("ctx", .object context))

end RuleTransducer.Api
