import Mathlib.Data.List.Sort
import WebhookRelay.Base64
import WebhookRelay.Relay
import WebhookRelay.Security

/-
  api/routes.py, with the response schemas of schemas/api.py: the mappings
  between relay outcomes, relay columns and API shapes, the checks of
  `create_event` up to the event it builds, the cursor codec, and the read
  endpoints. The transactions of `create_event` are the steps of `System`.
-/
namespace WebhookRelay

open Py

/-! ## Relay outcomes and columns -/

/-- `_relay_update_values`. -/
def relayUpdateValues (result : RelayOutcome) : RelayColumns where
  relayStatus := some (if ¬ result.attempted then "skipped" else if result.success then "success" else "failed")
  relayAttempted := if result.attempted then 1 else 0
  relaySuccess := if result.success then 1 else 0
  relayAttempts := result.attempts
  relayReason := result.reason
  relayLastError := result.lastError
  relayLastStatusCode := result.statusCode
  relayLastAttemptAt := result.lastAttemptAt

/-- `_apply_relay_result`. -/
def applyRelayResult (event : Event) (result : RelayOutcome) : Event :=
  { event with toRelayColumns := relayUpdateValues result }

/-- `_queue_full_relay_result`. -/
def queueFullRelayResult : RelayOutcome where
  attempted := false
  success := false
  reason := some "relay_queue_full"
  statusCode := none
  attempts := 0
  lastError := some "relay queue is full"
  lastAttemptAt := none

/-- `_event_relay_result`. -/
def eventRelayResult (event : Event) : Option RelayOutcome :=
  match event.relayStatus with
  | none => none
  | some _ => some {
      attempted := event.relayAttempted ≠ 0
      success := event.relaySuccess ≠ 0
      reason := event.relayReason
      statusCode := event.relayLastStatusCode
      attempts := event.relayAttempts
      lastError := event.relayLastError
      lastAttemptAt := event.relayLastAttemptAt.map asUtc }

/-! ## Responses -/

structure EventItem where
  eventId : String
  source : String
  receivedAt : Datetime
  payload : Json
  headers : List (String × String)
  requestId : String
  idempotencyKey : Option String
  relay : Option RelayOutcome

structure CreateWebhookResponse where
  eventId : String
  receivedAt : Datetime
  relay : Option RelayOutcome

structure EventsListResponse where
  events : List EventItem
  nextCursor : Option String

/-- `_event_item`. -/
def eventItem (event : Event) : EventItem where
  eventId := event.id
  source := event.source
  receivedAt := asUtc event.receivedAt
  payload := event.payload
  headers := event.headers
  requestId := event.requestId
  idempotencyKey := event.idempotencyKey
  relay := eventRelayResult event

/-- `_create_response`. -/
def createResponse (event : Event) : CreateWebhookResponse where
  eventId := event.id
  receivedAt := asUtc event.receivedAt
  relay := eventRelayResult event

/-! ## Intake -/

/-- A request to `POST /webhooks/{source}`, its header names in lower case. -/
structure Request where
  source : String
  rawBody : List UInt8
  headers : List (String × String)

def Request.header (req : Request) (name : String) : Option String := req.headers.lookup name

/-- What a request draws from its surroundings: the two `uuid4` values and the
clock. -/
structure Draws where
  requestUuid : Uuid
  eventUuid : Uuid
  now : Moment

/-- A header that is present and not empty. -/
def presentHeader (req : Request) (name : String) : Option (String × String) :=
  match req.header name with
  | some value => if value = "" then none else some (name, value)
  | none => none

/-- `_safe_headers`. -/
def safeHeaders (req : Request) : List (String × String) :=
  ["user-agent", "content-type", "x-request-id"].filterMap (presentHeader req)

/-- `d[key] = value` of a dictionary. -/
def dictSet (key value : String) : List (String × String) → List (String × String)
  | [] => [(key, value)]
  | item :: items =>
    if item.1 = key then (key, value) :: items else item :: dictSet key value items

/-- The request id the middleware of main.py sets: the header, or a new one. -/
def contextRequestId (req : Request) (draws : Draws) : String :=
  match presentHeader req "x-request-id" with
  | some (_, value) => value
  | none => draws.requestUuid.text

/-- The body as a JSON object. -/
def parseBody (env : Env) (rawBody : List UInt8) : Except PyExc Json :=
  match utf8Decode rawBody with
  | none => .error .unicodeDecodeError
  | some text =>
    match loads env.json text with
    | .error .jsonDecodeError => .error (.httpException 422 "Invalid JSON body")
    -- neither is a JSONDecodeError, so the `except` clause lets them pass
    | .error .valueError => .error (.valueError "Exceeds the limit for integer string conversion")
    | .error .recursionError => .error .recursionError
    | .ok (.obj items) => .ok (.obj items)
    | .ok _ => .error (.httpException 422 "Payload must be a JSON object")

/-- A payload is an object that `json.loads` returned. -/
theorem parseBody_ok {env : Env} {rawBody : List UInt8} {payload : Json} (h : parseBody env rawBody = .ok payload) :
    ∃ decoded items, utf8Decode rawBody = some decoded ∧ loads env.json decoded = .ok (.obj items) ∧
      payload = .obj items := by
  unfold parseBody at h
  split at h
  · cases h
  · next decoded hd =>
    split at h
    · cases h
    · cases h
    · cases h
    · next items hl =>
      cases h
      exact ⟨decoded, items, hd, hl, rfl⟩
    · cases h

/-- The checks of `create_event`, in their order, and the payload. -/
def validateRequest (env : Env) (settings : Settings) (req : Request) : Except PyExc Json :=
  if settings.allowedSources ≠ [] ∧ req.source ∉ settings.allowedSources then
    .error (.httpException 404 "Not found")
  else do
    enforceBodySizeLimit req.rawBody settings.maxBodyBytes
    verifyWebhookSignature env req.rawBody (req.header "x-webhook-signature") settings.webhookSecret
    parseBody env req.rawBody

/-- What a request that passed the checks has. -/
theorem validateRequest_ok {env : Env} {settings : Settings} {req : Request} {payload : Json}
    (h : validateRequest env settings req = .ok payload) :
    (settings.allowedSources = [] ∨ req.source ∈ settings.allowedSources) ∧
      req.rawBody.length ≤ settings.maxBodyBytes ∧
      verifyWebhookSignature env req.rawBody (req.header "x-webhook-signature") settings.webhookSecret = .ok () ∧
      parseBody env req.rawBody = .ok payload := by
  unfold validateRequest at h
  split at h
  · cases h
  · next hsource =>
    rw [not_and_or, not_not, not_not] at hsource
    unfold enforceBodySizeLimit at h
    split at h
    · cases h
    · next hsize =>
      cases hsig : verifyWebhookSignature env req.rawBody (req.header "x-webhook-signature")
          settings.webhookSecret with
      | error exc =>
        rw [hsig] at h
        cases h
      | ok u =>
        rw [hsig] at h
        exact ⟨hsource, Int.not_lt.mp hsize, rfl, h⟩

/-- The intake columns of the event a request builds. -/
def intakeColumns (req : Request) (payload : Json) (draws : Draws) : IntakeColumns where
  id := draws.eventUuid.text
  source := req.source
  receivedAt := .ofUtc draws.now
  payload := payload
  headers := dictSet "x-request-id" (contextRequestId req draws) (safeHeaders req)
  requestId := contextRequestId req draws
  idempotencyKey := req.header "idempotency-key"

/-- The relay columns of a new event: without a target, with a full queue, and
with a queue that has capacity. -/
def noRelay : RelayColumns := {}
def preFullRelay : RelayColumns :=
  { relayStatus := some "skipped", relayReason := some "relay_queue_full",
    relayLastError := some "relay queue is full" }
def scheduledRelay : RelayColumns :=
  { relayStatus := some "scheduled", relayReason := some "scheduled" }

/-- The local variables of `create_event` once the event is built. -/
structure Intake where
  pid : Nat
  event : Event
  queuePreFull : Bool

/-- `create_event` up to its first transaction, in process `pid`, where
`capacity` is what `relay_queue_has_capacity` returns or raises. -/
def buildEvent (env : Env) (pid : Nat) (capacity : Except PyExc Bool) (req : Request) (draws : Draws) :
    Except PyExc Intake := do
  let payload ← validateRequest env (env.settings pid) req
  let columns := intakeColumns req payload draws
  if (env.settings pid).targetUrl = "" then
    .ok { pid := pid, event := { columns with toRelayColumns := noRelay }, queuePreFull := false }
  else do
    -- without a dispatcher this raises before anything is stored
    let hasCapacity ← capacity
    if hasCapacity then
      .ok { pid := pid, event := { columns with toRelayColumns := scheduledRelay }, queuePreFull := false }
    else
      .ok { pid := pid, event := { columns with toRelayColumns := preFullRelay }, queuePreFull := true }

/-- What `create_event` has built, when it gets to its first transaction. -/
theorem buildEvent_ok {env : Env} {pid : Nat} {capacity : Except PyExc Bool} {req : Request}
    {draws : Draws} {i : Intake} (h : buildEvent env pid capacity req draws = .ok i) :
    ∃ payload, validateRequest env (env.settings pid) req = .ok payload ∧ i.pid = pid ∧
      i.event.toIntakeColumns = intakeColumns req payload draws ∧
      (((env.settings pid).targetUrl = "" ∧ i.event.toRelayColumns = noRelay ∧ i.queuePreFull = false) ∨
        ((env.settings pid).targetUrl ≠ "" ∧ capacity = .ok true ∧
          i.event.toRelayColumns = scheduledRelay ∧ i.queuePreFull = false) ∨
        ((env.settings pid).targetUrl ≠ "" ∧ capacity = .ok false ∧
          i.event.toRelayColumns = preFullRelay ∧ i.queuePreFull = true)) := by
  unfold buildEvent at h
  cases hv : validateRequest env (env.settings pid) req with
  | error exc =>
    rw [hv] at h
    cases h
  | ok payload =>
    rw [hv] at h
    simp only [bind, Except.bind] at h
    refine ⟨payload, rfl, ?_⟩
    by_cases ht : (env.settings pid).targetUrl = ""
    · rw [if_pos ht] at h
      cases h
      exact ⟨rfl, rfl, .inl ⟨ht, rfl, rfl⟩⟩
    · rw [if_neg ht] at h
      cases capacity with
      | error exc => cases h
      | ok b =>
        cases b with
        | true =>
          cases h
          exact ⟨rfl, rfl, .inr (.inl ⟨ht, rfl, rfl, rfl⟩)⟩
        | false =>
          cases h
          exact ⟨rfl, rfl, .inr (.inr ⟨ht, rfl, rfl, rfl⟩)⟩

/-- A valid request builds an event when the dispatcher can be asked. -/
theorem buildEvent_of_valid {env : Env} {pid : Nat} {req : Request} {payload : Json} (b : Bool)
    (draws : Draws) (h : validateRequest env (env.settings pid) req = .ok payload) :
    ∃ i, buildEvent env pid (.ok b) req draws = .ok i := by
  unfold buildEvent
  rw [h]
  simp only [bind, Except.bind]
  split
  · exact ⟨_, rfl⟩
  · cases b <;> exact ⟨_, rfl⟩

/-- The job `create_event` offers to the dispatcher. -/
def relayJob (settings : Settings) (event : Event) : RelayJob where
  eventId := event.id
  relayPayload := {
    eventId := event.id
    source := event.source
    receivedAt := (asUtc event.receivedAt).isoformat
    payload := event.payload
    headers := event.headers }
  targetUrl := settings.targetUrl
  requestId := event.requestId
  relayAllowHosts := settings.relayAllowHosts
  relayAllowPrivateIps := settings.relayAllowPrivateIps

/-! ## Cursors -/

/-- `_encode_cursor`. -/
def encodeCursor (receivedAt : Datetime) (eventId : String) : String :=
  String.ofList (b64encode (asciiBytes
    (dumpsObject [(text "ts", .ofChars (asUtc receivedAt).isoformat), (text "id", text eventId)])))

/-- `d[key]` of a parsed value; `none` is KeyError or TypeError. -/
def subscript (v : Json) (key : Str) : Option Json :=
  match v with
  | .obj items => items.lookup key
  | _ => none

/-- `_decode_cursor` without its `except` clause; `none` is any Exception. -/
def decodeCursor? (env : Env) (cursor : String) : Option (Datetime × Str) := do
  guard (isAscii cursor)
  let raw ← b64decode cursor.toList
  let decoded ← utf8Decode raw
  let payload ← (loads env.json decoded).toOption
  let ts ← match subscript payload (text "ts") with
    | some (.str s) => fromisoformatStr s
    | _ => none
  -- a naive timestamp is read as UTC; one whose UTC is out of range overflows
  let aware ← Datetime.make? ts.1 (some (ts.2.getD 0))
  let id ← subscript payload (text "id")
  return (asUtc aware, match id with | .str s => s | v => env.strOf v)

/-- `_decode_cursor`. -/
def decodeCursor (env : Env) (cursor : String) : Except PyExc (Datetime × Str) :=
  match decodeCursor? env cursor with
  | some r => .ok r
  | none => .error (.httpException 400 "Invalid cursor")

/-! ## Reading events -/

/-- The database's order of id strings. -/
structure Collation where
  lt : String → String → Bool
  irrefl : ∀ a, lt a a = false
  trans : ∀ a b c, lt a b = true → lt b c = true → lt a c = true
  connected : ∀ a b, lt a b = false → lt b a = false → a = b

/-- `(received_at, id)` of the row is below the pair, as the WHERE clause of
`list_events` has it. -/
def below (coll : Collation) (ts : Moment) (id : String) (e : Event) : Prop :=
  e.receivedAt.utc < ts ∨ (e.receivedAt.utc = ts ∧ coll.lt e.id id = true)

instance (coll : Collation) (ts : Moment) (id : String) (e : Event) : Decidable (below coll ts id e) :=
  inferInstanceAs (Decidable (_ ∨ _))

/-- `ORDER BY received_at DESC, id DESC`: the first row does not come after
the second. -/
def notAfter (coll : Collation) (a b : Event) : Prop := ¬ below coll b.receivedAt.utc b.id a

instance (coll : Collation) : DecidableRel (notAfter coll) :=
  fun a b => inferInstanceAs (Decidable (¬ below coll b.receivedAt.utc b.id a))

/-- The source filter; an empty parameter filters nothing. -/
def sourceMatches (source : Option String) (e : Event) : Bool :=
  match source with
  | none => true
  | some s => s = "" || e.source = s

/-- The rows the SELECT of `list_events` returns. -/
def selectEvents (coll : Collation) (s : Store) (limit : Nat) (source : Option String)
    (cursor : Option (Moment × String)) : List Event :=
  let rows := s.rows.filter (fun e => sourceMatches source e &&
    (match cursor with
      | none => true
      | some c => decide (below coll c.1 c.2 e)))
  -- one row more than the page, to see whether there is another page
  (rows.insertionSort (notAfter coll)).take (limit + 1)

/-- The cursor parameter as the bound values of the SELECT: absent or empty,
decoded, or an error. A text parameter with a surrogate is refused by the
driver. -/
def cursorParameter (env : Env) (cursor : Option String) : Except PyExc (Option (Moment × String)) :=
  match cursor with
  | none => .ok none
  | some c =>
    if c = "" then .ok none
    else do
      let (ts, id) ← decodeCursor env c
      match id.encode with
      | some chars => .ok (some (ts.utc, String.ofList chars))
      | none => .error .unicodeEncodeError

/-- The page made of the selected rows. -/
def makePage (rows : List Event) (limit : Nat) : EventsListResponse where
  events := (rows.take limit).map eventItem
  nextCursor :=
    match (rows.take limit).getLast? with
    | some tail => if limit < rows.length then some (encodeCursor tail.receivedAt tail.id) else none
    | none => none

/-- `list_events`. -/
def listEvents (env : Env) (coll : Collation) (s : Store) (limit : Nat) (cursor : Option String)
    (source : Option String) : Except PyExc EventsListResponse := do
  let bound ← cursorParameter env cursor
  .ok (makePage (selectEvents coll s limit source bound) limit)

/-- `get_event`. -/
def getEvent (s : Store) (eventId : String) : Except PyExc EventItem :=
  match s.get eventId with
  | some event => .ok (eventItem event)
  | none => .error (.httpException 404 "Event not found")

end WebhookRelay
