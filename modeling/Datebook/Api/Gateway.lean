import Datebook.Api.Body
import Datebook.Api.MediaType
import Datebook.Api.Target
import Datebook.Store.Events

/-!
# The gateway

Answers the requests of clients from an event store. A request is checked in a fixed order and the
first check that fails decides the answer: its path, its method, the id in its path, its body or
query, and then what the store says. Only a request that succeeds changes the store. A body is read
if it is said to be JSON and is not too long.
-/

namespace Datebook.Api

inductive Method
  | get
  | head
  | post
  | put
  | delete
  | other
  deriving DecidableEq

def Method.ofName (s : String) : Method :=
  match s with
  | "GET" => .get
  | "HEAD" => .head
  | "POST" => .post
  | "PUT" => .put
  | "DELETE" => .delete
  | _ => .other

structure HttpRequest where
  method : Method
  target : Target
  mediaType : Option String
  body : Octets
  deriving DecidableEq

inductive Content
  | empty
  | text (s : String)
  | json (s : String)
  deriving DecidableEq

structure HttpResponse where
  status : Nat
  content : Content
  deriving DecidableEq

/-- Why a request is refused. -/
inductive ApiError
  | notJson
  | tooLong
  | body (fault : Json.Fault)
  | query
  | startsTooEarly
  | notify (fault : NotifyFault)
  | reversedBounds
  | store (e : StoreError)
  deriving DecidableEq

namespace ApiError

def status : ApiError → Nat
  | .store .busy => 409
  | .store (.invalid _) => 400
  | .store (.notFound _) => 404
  | .store (.outOfRange _ _) => 500
  | .store (.io _) => 500
  | _ => 400

def code : ApiError → String
  | .store e => e.code
  | _ => "INVALID_REQUEST"

/-- What the client is told. Of a body or a query that cannot be read it is told more than this: the
reader's own account of the fault follows after a colon. -/
def message : ApiError → String
  | .notJson => "Expected request with `Content-Type: application/json`"
  | .tooLong => "Failed to buffer the request body"
  | .body .malformed => "Failed to parse the request body as JSON"
  | .body .mismatch => "Failed to deserialize the JSON body into the target type"
  | .query => "Failed to deserialize query string"
  | .startsTooEarly => "start_time must be in the future"
  | .notify .negative => "notify_before must not be negative"
  | .notify .outOfRange => "notify_before is out of range"
  | .reversedBounds => "from must not be after to"
  | .store e => e.message

end ApiError

namespace HttpResponse

/-- An answer without content. -/
def bare (status : Nat) : HttpResponse := ⟨status, .empty⟩

def ofError (e : ApiError) : HttpResponse :=
  ⟨e.status, .json (String.ofList
    (Json.object [("error", Json.quoted e.message), ("code", Json.quoted e.code)]))⟩

def ofEvent (status : Nat) (e : Event) : HttpResponse :=
  ⟨status, .json (String.ofList (EventView.ofEvent e).chars)⟩

def ofEvents (es : List Event) : HttpResponse :=
  ⟨200, .json (String.ofList
    (Json.object [("events", Json.array (es.map fun e => (EventView.ofEvent e).chars))]))⟩

def healthy : HttpResponse :=
  ⟨200, .json (String.ofList
    (Json.object [("status", Json.quoted "ok"), ("version", Json.quoted "0.1.0")]))⟩

def badId : HttpResponse := ⟨400, .text "Invalid URL: Invalid UTF-8 in `id`"⟩

end HttpResponse

/-- The most octets that a body may have. -/
def bodyLimit : Nat := 2097152

/-- A store, and the count of ids given to events so far. -/
structure Gateway (σ : Type) where
  store : σ
  given : Nat

namespace Gateway

/-- The event that a request describes. -/
def readBody (r : HttpRequest) : Except ApiError EventBody :=
  if (r.mediaType.map isJsonType).getD false then
    if bodyLimit < r.body.length then .error .tooLong
    else (EventBody.ofOctets r.body).mapError .body
  else .error .notJson

variable {σ : Type} [EventCalls σ]

/-- Stores a new event, which must start after `now`. -/
def create (ids : Nat → String) (now : Instant) (r : HttpRequest) (g : Gateway σ) :
    Except ApiError Event × Gateway σ :=
  match readBody r with
  | .error e => (.error e, g)
  | .ok body =>
    if body.startTime ≤ now then (.error .startsTooEarly, g)
    else
      match body.event "" with
      | .error fault => (.error (.notify fault), g)
      | .ok e =>
        match EventCalls.create g.store (ids g.given) e with
        | (.ok e, store) => (.ok e, ⟨store, g.given + 1⟩)
        | (.error e, store) => (.error (.store e), { g with store })

/-- Stores the event that is described in place of the one with the id. -/
def replace (id : String) (r : HttpRequest) (g : Gateway σ) : Except ApiError Event × Gateway σ :=
  match readBody r with
  | .error e => (.error e, g)
  | .ok body =>
    match body.event id with
    | .error fault => (.error (.notify fault), g)
    | .ok e =>
      let e := e.atStoragePrecision
      let (result, store) := EventCalls.update g.store e
      ((result.mapError .store).map fun _ => e, { g with store })

/-- The bounds of a query, which are a month before and after `now` where it sets none. -/
def window (now : Instant) (b : Bounds) : Instant × Instant :=
  (b.start.getD ((now.addMonths? (-1)).getD now), b.finish.getD ((now.addMonths? 1).getD now))

/-- The events that start within the bounds of the query, by their start. -/
def list (now : Instant) (r : HttpRequest) (g : Gateway σ) :
    Except ApiError (List Event) × Gateway σ :=
  match Bounds.ofQuery? r.target.query with
  | none => (.error .query, g)
  | some bounds =>
    let (start, finish) := window now bounds
    if finish < start then (.error .reversedBounds, g)
    else
      let (result, store) := EventCalls.list g.store start finish
      ((result.mapError .store).map fun es =>
        es.mergeSort fun a b => decide (a.startTime ≤ b.startTime), { g with store })

def delete (id : String) (g : Gateway σ) : Except ApiError Unit × Gateway σ :=
  let (result, store) := EventCalls.delete g.store id
  (result.mapError .store, { g with store })

def get (id : String) (g : Gateway σ) : Except ApiError Event :=
  (EventCalls.get g.store id).mapError .store

/-- The answer of a result. -/
def respond {α : Type} (f : α → HttpResponse) (result : Except ApiError α × Gateway σ) :
    HttpResponse × Gateway σ :=
  match result with
  | (.ok a, g) => (f a, g)
  | (.error e, g) => (.ofError e, g)

/-- Answers a request for one event. -/
def onEvent (id : String) (r : HttpRequest) (g : Gateway σ) : HttpResponse × Gateway σ :=
  match r.method with
  | .get | .head => respond (.ofEvent 200) (g.get id, g)
  | .put => respond (.ofEvent 200) (g.replace id r)
  | .delete => respond (fun _ => .bare 204) (g.delete id)
  | .post | .other => (.bare 405, g)

/-- Answers a request for all events. -/
def onEvents (ids : Nat → String) (now : Instant) (r : HttpRequest) (g : Gateway σ) :
    HttpResponse × Gateway σ :=
  match r.method with
  | .get | .head => respond .ofEvents (g.list now r)
  | .post => respond (.ofEvent 201) (g.create ids now r)
  | .put | .delete | .other => (.bare 405, g)

/-- Answers a request as if all of the answer were wanted. -/
def route (ids : Nat → String) (now : Instant) (r : HttpRequest) (g : Gateway σ) :
    HttpResponse × Gateway σ :=
  match Route.ofPath? r.target.path with
  | none => (.bare 404, g)
  | some .health => (if r.method = .get ∨ r.method = .head then .healthy else .bare 405, g)
  | some .events => onEvents ids now r g
  | some (.event id) =>
    match (Octets.percentDecode id).text? with
    | some id => onEvent id r g
    | none => (if r.method = .post ∨ r.method = .other then .bare 405 else .badId, g)

/-- Answers a request; a request for the head alone gets no content. -/
def answer (ids : Nat → String) (now : Instant) (r : HttpRequest) (g : Gateway σ) :
    HttpResponse × Gateway σ :=
  let (response, g) := route ids now r g
  (if r.method = .head then { response with content := .empty } else response, g)

end Gateway

end Datebook.Api
