import RuleTransducer.Api.Service
import RuleTransducer.Api.Target
import RuleTransducer.Text.Encoding

/-! The service over HTTP, as a function from a request to a status and a JSON body. The
path is found first, then the method, then the body is checked, and only then is the
transducer looked up. A request is left without a response if a faulty value in its body nests
too deep to be reported, and if the response has a surrogate in it. -/

namespace RuleTransducer.Api

/-! ### Paths -/

/-- The place that a path names. -/
inductive Route
  | root
  | health
  | transducers
  | transducer (id : String)
  | stats (id : String)
  | parse (id : String)
  | parseBatch (id : String)
  deriving DecidableEq

/-- Whether a last segment is a given name; a line end after it does not count. -/
def endsAs (segment name : String) : Bool := segment = name || segment = name ++ "\n"

/-- The route of a path from its segments. -/
def Route.ofSegments? : List String → Option Route
  | [last] => if endsAs last "" then some root else none
  | ["api", "v1", last] =>
    if endsAs last "health" then some health
    else if endsAs last "transducers" then some transducers
    else none
  | ["api", "v1", "transducers", id] => if id.isEmpty then none else some (transducer id)
  | ["api", "v1", "transducers", id, last] =>
    if id.isEmpty then none
    else if endsAs last "stats" then some (stats id)
    else if endsAs last "parse" then some (parse id)
    else if endsAs last "parse_batch" then some (parseBatch id)
    else none
  | _ => none

/-- The route of a path without its first slash. -/
def Route.ofPath? (path : List Char) : Option Route :=
  Route.ofSegments? ((Text.segments path).map String.ofList)

/-- The route of a target. -/
def Route.ofTarget? (target : String) : Option Route := Route.ofPath? (decodedPath target)

/-- Whether a target would have a route without the slashes at its end. -/
def isOverlong (target : String) : Bool :=
  let path := decodedPath target
  let trimmed := (path.reverse.dropWhile (· = '/')).reverse
  trimmed ≠ path && !trimmed.isEmpty && (Route.ofPath? trimmed).isSome

/-! ### Bodies -/

/-- Why a body could not be read. -/
inductive BodyFault
  | absent
  | malformed (e : Json.ReadError)
  /-- The reading gave up. -/
  | unreadable

/-- How deep a body may nest. -/
def bodyNesting : Nat := 967

/-- Reads the octets of a body in the encoding that they tell. -/
def readBody (octets : List UInt8) : Except BodyFault Json :=
  if octets.isEmpty then .error .absent
  else
    match Text.ofOctets? octets with
    | none => .error .unreadable
    | some text =>
      match Json.documentWithin bodyNesting text with
      | .ok document => .ok document
      | .error e =>
        if e.fault.isSurrender then .error .unreadable else .error (.malformed e)

/-! ### Responses -/

structure Response where
  status : Nat
  body : Json

/-- A response with a detail for a message. -/
def detail (status : Nat) (message : String) : Response :=
  ⟨status, .object [("detail", .text message)]⟩

def notFound : Response := detail 404 "Not Found"

def methodNotAllowed : Response := detail 405 "Method Not Allowed"

/-- The response to an overlong target. -/
def redirect : Response := ⟨307, .null⟩

/-- The response to a body that breaks the schema. -/
def invalidBody (errors : List SchemaError) : Response :=
  ⟨422, errorJson "Request validation failed" "VALIDATION_ERROR"
    (.object [("errors", .array (errors.map SchemaError.json))])⟩

def BodyFault.response : BodyFault → Response
  | absent => invalidBody [⟨.missing, [.field "body"], .null⟩]
  | malformed e =>
    invalidBody [⟨.notJson e.fault.message, [.field "body", .index e.position], .dict []⟩]
  | unreadable => detail 400 "There was an error parsing the body"

/-- Why a request is left without a response. -/
inductive Breakdown
  /-- A faulty value has too many levels. -/
  | deepValue
  /-- The response has a surrogate in it. -/
  | surrogate
  /-- Rules that pass validation and still do not compile. -/
  | uncompiled (e : RuleError)

def Breakdown.message : Breakdown → String
  | deepValue => "Maximum serialization depth exceeded"
  | surrogate => "surrogates not allowed"
  | uncompiled e => e.message

/-- How many levels a faulty value may have. It is reported inside of an error in a list, and
255 levels can be written. -/
def valueLevels : Nat := 253

/-- Answers a body that breaks the schema, unless the value of an error is too deep. -/
def reportErrors (errors : List SchemaError) : Except Breakdown Response :=
  if errors.all fun e => e.value.reported.levels ≤ valueLevels then .ok (invalidBody errors)
  else .error .deepValue

/-- A response as it is sent, which is in UTF-8. -/
def Response.sent (response : Response) : Except Breakdown Response :=
  if response.body.isScalar then .ok response else .error .surrogate

/-- The status of a reply, where `success` is the status of one that is not refused. -/
def Reply.status (success : Nat) : Reply → Nat
  | refused (.unknownTransducer _) => 404
  | refused (.invalidRules _) => 400
  | _ => success

def Reply.response (success : Nat) (reply : Reply) : Response :=
  ⟨reply.status success, reply.json⟩

/-- Answers with what `act` does on the checked body, or with the faults of the body. -/
def withBody {α : Type} (r : Registry) (body : Except BodyFault Json)
    (check : List Place → List (Text × Datum) → Checked α)
    (act : α → Registry × Except Breakdown Response) : Registry × Except Breakdown Response :=
  match body with
  | .error fault => (r, .ok fault.response)
  | .ok document =>
    match checkModel (check [.field "body"]) [.field "body"] .notObject (.ofJson document) with
    | .error errors => (r, reportErrors errors)
    | .ok request => act request

def version : String := "0.5.0"

def healthJson : Json :=
  .object [("status", .text "healthy"), ("service", .text "genfst"), ("version", .text version),
    ("environment", .text "development")]

def rootJson : Json :=
  .object [("service", .text "genfst"), ("docs", .text "/api/docs"),
    ("health", .text "/api/v1/health")]

def idsJson (ids : List String) : Json :=
  .object [("transducers", .strings ids), ("count", .nat ids.length)]

def closedJson (id : String) (closed : Bool) : Json :=
  .object [("success", .bool closed), ("transducer_id", .text id)]

/-- Answers a request on a route, before the response is sent; a new transducer takes the next of
the fresh identifiers. -/
def Route.answer (route : Route) (r : Registry) (method : String) (body : Except BodyFault Json)
    (fresh : Nat → String := Registry.idOf) : Registry × Except Breakdown Response :=
  match route with
  | root => (r, .ok (if method = "GET" then ⟨200, rootJson⟩ else methodNotAllowed))
  | health => (r, .ok (if method = "GET" then ⟨200, healthJson⟩ else methodNotAllowed))
  | transducers =>
    if method = "GET" then (r, .ok ⟨200, idsJson r.ids⟩)
    else if method = "POST" then
      withBody r body CreateRequest.check fun request =>
        let (r, created) := create r request fresh
        (r, (created.map (Reply.response 201)).mapError .uncompiled)
    else (r, .ok methodNotAllowed)
  | transducer id =>
    if method = "GET" then (r, .ok ((get r id).response 200))
    else if method = "DELETE" then
      let (r, closed) := r.close id
      (r, .ok ⟨200, closedJson id closed⟩)
    else (r, .ok methodNotAllowed)
  | stats id =>
    (r, .ok (if method = "GET" then (Api.stats r id).response 200 else methodNotAllowed))
  | parse id =>
    if method = "POST" then
      withBody r body ParseRequest.check fun request =>
        let (r, reply) := Api.parse r id request
        (r, .ok (reply.response 200))
    else (r, .ok methodNotAllowed)
  | parseBatch id =>
    if method = "POST" then
      withBody r body BatchRequest.check fun request =>
        let (r, reply) := Api.parseBatch r id request
        (r, .ok (reply.response 200))
    else (r, .ok methodNotAllowed)

/-- A method as it is sent, in capitals. -/
def sentMethod (method : String) : String := String.ofList (method.toList.map Char.toUpper)

/-- A response without its body. -/
def Response.bare (response : Response) : Response := { response with body := .null }

/-- An answer whose response is sent. -/
def sent (answered : Registry × Except Breakdown Response) :
    Registry × Except Breakdown Response :=
  (answered.1, answered.2.bind Response.sent)

/-- Answers a request. The response to HEAD keeps its body to itself. -/
def answer (r : Registry) (method target : String) (body : Except BodyFault Json)
    (fresh : Nat → String := Registry.idOf) : Registry × Except Breakdown Response :=
  let method := sentMethod method
  let (r, response) := sent <|
    match Route.ofTarget? target with
    | some route => route.answer r method body fresh
    | none => (r, .ok (if isOverlong target then redirect else notFound))
  (r, if method = "HEAD" then response.map Response.bare else response)

end RuleTransducer.Api
