import Mathlib.Data.String.Basic
import WebhookRelay.Intake
import WebhookRelay.ResponseModel

/-
  What the read endpoints answer. A response is an `EventItem` or a page of
  them: `response_model` serializes it, and `JSONResponse` renders it as strict
  JSON. Everything in it but the payload always passes (`eventItem_strict`), so a
  read answers exactly when the payloads it shows can be shown, and with the
  payload that was stored exactly when that is strict JSON. The payload is the one
  `json.loads` made of the request's body, and `json.loads` admits more
  (`surrogate_poisons_reads`).
-/
namespace WebhookRelay

open Py Transition

/-! ## Response bodies -/

def jsonOption {α : Type} (f : α → Json) : Option α → Json
  | none => .null
  | some a => f a

/-- A datetime in a response; UTC is written as `Z`. -/
def jsonDatetime (d : Datetime) : Json :=
  .str (.ofChars (isoDate (d.wall.micros / dayMicros) ++ 'T' :: (isoTime (d.wall.micros % dayMicros) ++
    if d.offset = some 0 then ['Z'] else isoOffset d.offset)))

/-- `RelayResult`. -/
def RelayOutcome.json (r : RelayOutcome) : Json :=
  .obj [(text "attempted", .bool r.attempted), (text "success", .bool r.success),
    (text "reason", jsonOption jsonString r.reason), (text "status_code", jsonOption .int r.statusCode),
    (text "attempts", .int r.attempts), (text "last_error", jsonOption jsonString r.lastError),
    (text "last_attempt_at", jsonOption jsonDatetime r.lastAttemptAt)]

def EventItem.json (e : EventItem) : Json :=
  .obj [(text "event_id", jsonString e.eventId), (text "source", jsonString e.source),
    (text "received_at", jsonDatetime e.receivedAt), (text "payload", e.payload),
    (text "headers", jsonHeaders e.headers), (text "request_id", jsonString e.requestId),
    (text "idempotency_key", jsonOption jsonString e.idempotencyKey),
    (text "relay", jsonOption RelayOutcome.json e.relay)]

def EventsListResponse.json (page : EventsListResponse) : Json :=
  .obj [(text "events", .arr (page.events.map EventItem.json)),
    (text "next_cursor", jsonOption jsonString page.nextCursor)]

/-- An item in the JSON mode of `response_model`. The payload is the one field
that holds more than texts and numbers. -/
def EventItem.serialize (env : Env) (e : EventItem) : Except PyExc EventItem :=
  match serializeDict env.serializeRoom e.payload with
  | none => .error (.valueError "Circular reference detected (depth exceeded)")
  | some payload => .ok { e with payload }

def EventsListResponse.serialize (env : Env) (page : EventsListResponse) : Except PyExc EventsListResponse := do
  return { page with events := ← page.events.mapM (EventItem.serialize env) }

/-- The body of a 200 response, or the exception that makes it a 500. -/
def respond (env : Env) (v : Json) : Except PyExc (List Char) :=
  if env.dumpsRoom < v.depth then .error .recursionError
  else
    match render v with
    | .ok body => .ok body
    | .error .valueError => .error (.valueError "Out of range float values are not JSON compliant")
    | .error .unicodeEncodeError => .error .unicodeEncodeError

/-- `GET /events/{event_id}`. -/
def getEventResponse (env : Env) (s : Store) (eventId : String) : Except PyExc (List Char) := do
  let item ← getEvent s eventId
  respond env (← item.serialize env).json

/-- `GET /events`. -/
def listEventsResponse (env : Env) (coll : Collation) (s : Store) (limit : Nat) (cursor : Option String)
    (source : Option String) : Except PyExc (List Char) := do
  let page ← listEvents env coll s limit cursor source
  respond env (← page.serialize env).json

/-! ## What is served -/

/-- The item that is rendered for an item. -/
def EventItem.served (e : EventItem) : EventItem := { e with payload := e.payload.serialized }

/-- The serializer has room for the payload. -/
def EventItem.Shallow (env : Env) (e : EventItem) : Prop := e.payload.levels 1 ≤ env.serializeRoom + 1

instance (env : Env) (e : EventItem) : Decidable (e.Shallow env) :=
  inferInstanceAs (Decidable (e.payload.levels 1 ≤ env.serializeRoom + 1))

section

variable {env : Env} {e : EventItem} {items : List (Str × Json)}

theorem serialize_ok (hobj : e.payload = .obj items) (h : e.Shallow env) : e.serialize env = .ok e.served := by
  rw [EventItem.Shallow, hobj] at h
  rw [EventItem.serialize, hobj, serializeDict_eq_some.mpr ⟨h, rfl⟩, EventItem.served, hobj]

theorem serialize_deep (hobj : e.payload = .obj items) (h : ¬ e.Shallow env) (e' : EventItem) :
    e.serialize env ≠ .ok e' := by
  intro hok
  rw [EventItem.serialize] at hok
  split at hok
  · cases hok
  · next payload hserialize =>
    rw [EventItem.Shallow, hobj] at h
    rw [hobj, serializeDict_eq_some] at hserialize
    exact h hserialize.1

/-- A page is serialized if all its items are. -/
theorem serializeAll_ok {events served : List EventItem} (hobj : ∀ e ∈ events, ∃ items, e.payload = .obj items) :
    events.mapM (EventItem.serialize env) = .ok served ↔
      (∀ e ∈ events, e.Shallow env) ∧ served = events.map EventItem.served := by
  induction events generalizing served with
  | nil =>
    rw [List.mapM_nil, List.map_nil]
    constructor
    · intro h
      cases h
      exact ⟨fun e he => absurd he List.not_mem_nil, rfl⟩
    · intro h
      rw [h.2]
      rfl
  | cons e es ih =>
    obtain ⟨⟨items, hitems⟩, hes⟩ := List.forall_mem_cons.mp hobj
    rw [List.mapM_cons, List.forall_mem_cons, List.map_cons]
    constructor
    · intro h
      obtain ⟨e', he', hrest⟩ := except_bind_ok h
      obtain ⟨es', hes', hpure⟩ := except_bind_ok hrest
      obtain ⟨hshallow, rfl⟩ := (ih hes).mp hes'
      by_cases hroom : e.Shallow env
      · rw [serialize_ok hitems hroom] at he'
        cases he'
        cases hpure
        exact ⟨⟨hroom, hshallow⟩, rfl⟩
      · exact absurd he' (serialize_deep hitems hroom e')
    · rintro ⟨⟨hroom, hshallow⟩, rfl⟩
      rw [serialize_ok hitems hroom, (ih hes).mpr ⟨hshallow, rfl⟩]
      rfl

end

/-! ## What can be rendered -/

theorem strict_jsonString (s : String) : (jsonString s).strict = true := scalars_text s

theorem strict_jsonDatetime (d : Datetime) : (jsonDatetime d).strict = true := scalars_ofChars _

theorem strict_jsonOption {α : Type} {f : α → Json} (hf : ∀ a, (f a).strict = true) (o : Option α) :
    (jsonOption f o).strict = true := by
  cases o with
  | none => rfl
  | some a => exact hf a

theorem strict_relay (r : RelayOutcome) : r.json.strict = true := by
  refine (strict_obj [("attempted", .bool r.attempted), ("success", .bool r.success),
    ("reason", jsonOption jsonString r.reason), ("status_code", jsonOption .int r.statusCode),
    ("attempts", .int r.attempts), ("last_error", jsonOption jsonString r.lastError),
    ("last_attempt_at", jsonOption jsonDatetime r.lastAttemptAt)]).trans ?_
  have hint : (jsonOption Json.int r.statusCode).strict = true := strict_jsonOption (fun _ => rfl) _
  simp only [List.all_cons, List.all_nil, strict_jsonOption strict_jsonString,
    strict_jsonOption strict_jsonDatetime, hint, Bool.and_true, Bool.true_and]
  rfl

theorem strict_headers (headers : List (String × String)) : (jsonHeaders headers).strict = true := by
  have hmap : headers.map (fun h => (text h.1, jsonString h.2)) =
      (headers.map (fun h => (h.1, jsonString h.2))).map (fun m => (text m.1, m.2)) := by
    rw [List.map_map]
    rfl
  rw [jsonHeaders, hmap, strict_obj, List.all_map]
  exact List.all_eq_true.mpr (fun h _ => strict_jsonString h.2)

/-- An item is strict exactly when its payload is. -/
theorem eventItem_strict (e : EventItem) : e.json.strict = e.payload.strict := by
  refine (strict_obj [("event_id", jsonString e.eventId), ("source", jsonString e.source),
    ("received_at", jsonDatetime e.receivedAt), ("payload", e.payload),
    ("headers", jsonHeaders e.headers), ("request_id", jsonString e.requestId),
    ("idempotency_key", jsonOption jsonString e.idempotencyKey),
    ("relay", jsonOption RelayOutcome.json e.relay)]).trans ?_
  simp only [List.all_cons, List.all_nil, strict_jsonString, strict_jsonDatetime, strict_headers,
    strict_jsonOption strict_jsonString, strict_jsonOption strict_relay, Bool.and_true, Bool.true_and]

/-- A page is strict exactly when all its payloads are. -/
theorem page_strict (page : EventsListResponse) :
    page.json.strict = page.events.all (fun e => e.payload.strict) := by
  refine (strict_obj [("events", .arr (page.events.map EventItem.json)),
    ("next_cursor", jsonOption jsonString page.nextCursor)]).trans ?_
  simp only [List.all_cons, List.all_nil, strict_jsonOption strict_jsonString, Bool.and_true]
  rw [strict_arr, List.all_map]
  exact congrArg page.events.all (funext eventItem_strict)

theorem depth_jsonOption {α : Type} {f : α → Json} {n : Nat} (hf : ∀ a, (f a).depth ≤ n) (o : Option α) :
    (jsonOption f o).depth ≤ n := by
  cases o with
  | none => exact Nat.zero_le n
  | some a => exact hf a

theorem depth_relay (r : RelayOutcome) : r.json.depth ≤ 1 := by
  apply Nat.succ_le_succ
  rw [levelsObj_le]
  simp only [List.forall_mem_cons, List.not_mem_nil, false_implies, implies_true, and_true]
  exact ⟨Nat.le_refl 0, Nat.le_refl 0, depth_jsonOption (fun _ => Nat.le_refl 0) _,
    depth_jsonOption (fun _ => Nat.le_refl 0) _, Nat.le_refl 0, depth_jsonOption (fun _ => Nat.le_refl 0) _,
    depth_jsonOption (fun _ => Nat.le_refl 0) _⟩

theorem EventItem.depth_json {e : EventItem} {n : Nat} (h : e.payload.depth ≤ n + 1) : e.json.depth ≤ n + 2 := by
  have hone : 1 ≤ n + 1 := Nat.succ_le_succ (Nat.zero_le n)
  apply Nat.succ_le_succ
  rw [levelsObj_le]
  simp only [List.forall_mem_cons, List.not_mem_nil, false_implies, implies_true, and_true]
  exact ⟨Nat.zero_le _, Nat.zero_le _, Nat.zero_le _, h, (depth_headers _).trans hone, Nat.zero_le _,
    depth_jsonOption (fun _ => Nat.zero_le _) _, depth_jsonOption (fun r => (depth_relay r).trans hone) _⟩

theorem EventsListResponse.depth_json {page : EventsListResponse} {n : Nat}
    (h : ∀ e ∈ page.events, e.json.depth ≤ n) : page.json.depth ≤ n + 2 := by
  apply Nat.succ_le_succ
  rw [levelsObj_le]
  simp only [List.forall_mem_cons, List.not_mem_nil, false_implies, implies_true, and_true]
  refine ⟨Nat.succ_le_succ (levelsArr_le.mpr ?_), depth_jsonOption (fun _ => Nat.zero_le _) _⟩
  rw [List.forall_mem_map]
  exact h

theorem served_payload_depth {env : Env} {e : EventItem} (h : e.Shallow env) :
    e.served.payload.depth ≤ env.serializeRoom + 1 :=
  (Json.depth_le _).trans ((serialized_levels 1 e.payload).trans h)

/-- What the serializer lets through is far from the limit of `json.dumps`. -/
theorem served_depth {env : Env} {e : EventItem} (h : e.Shallow env) : e.served.json.depth ≤ env.serializeRoom + 2 :=
  EventItem.depth_json (served_payload_depth h)

theorem respond_ok_iff {env : Env} {v : Json} (hroom : v.depth ≤ env.dumpsRoom) (body : List Char) :
    respond env v = .ok body ↔ render v = .ok body := by
  rw [respond, if_neg (Nat.not_lt.mpr hroom)]
  cases h : render v with
  | ok body' => simp only [Except.ok.injEq]
  | error e => cases e <;> simp only [reduceCtorEq]

section

variable {env : Env} {s : Store} {id : String}

/-- **The answer of `GET /events/{event_id}`.** -/
theorem getEventResponse_ok_iff {item : EventItem} {items : List (Str × Json)} (hitem : getEvent s id = .ok item)
    (hobj : item.payload = .obj items) (body : List Char) :
    getEventResponse env s id = .ok body ↔ item.Shallow env ∧ render item.served.json = .ok body := by
  have hresponse : getEventResponse env s id = item.serialize env >>= fun e => respond env e.json := by
    rw [getEventResponse, hitem]
    rfl
  rw [hresponse]
  have hdepth (hroom : item.Shallow env) : item.served.json.depth ≤ env.dumpsRoom :=
    (served_depth hroom).trans (Nat.le_trans (Nat.add_le_add_left (by decide) _) env.serializeRoom_le)
  constructor
  · intro h
    obtain ⟨e, he, hrespond⟩ := except_bind_ok h
    by_cases hroom : item.Shallow env
    · rw [serialize_ok hobj hroom] at he
      cases he
      exact ⟨hroom, (respond_ok_iff (hdepth hroom) body).mp hrespond⟩
    · exact absurd he (serialize_deep hobj hroom e)
  · rintro ⟨hroom, hrender⟩
    rw [serialize_ok hobj hroom]
    exact (respond_ok_iff (hdepth hroom) body).mpr hrender

/-- The page that is rendered for a page. -/
def EventsListResponse.served (page : EventsListResponse) : EventsListResponse :=
  { page with events := page.events.map EventItem.served }

/-- **The answer of `GET /events`.** -/
theorem listEventsResponse_ok_iff {coll : Collation} {limit : Nat} {cursor source : Option String}
    {page : EventsListResponse} (hpage : listEvents env coll s limit cursor source = .ok page)
    (hobj : ∀ e ∈ page.events, ∃ items, e.payload = .obj items) (body : List Char) :
    listEventsResponse env coll s limit cursor source = .ok body ↔
      (∀ e ∈ page.events, e.Shallow env) ∧ render page.served.json = .ok body := by
  have hdepth : (∀ e ∈ page.events, e.Shallow env) → page.served.json.depth ≤ env.dumpsRoom := by
    intro h
    refine (EventsListResponse.depth_json ?_).trans env.serializeRoom_le
    rw [EventsListResponse.served, List.forall_mem_map]
    exact fun e he => served_depth (h e he)
  have hresponse : listEventsResponse env coll s limit cursor source =
      page.serialize env >>= fun page => respond env page.json := by
    rw [listEventsResponse, hpage]
    rfl
  rw [hresponse]
  constructor
  · intro h
    obtain ⟨page', hserialize, hrespond⟩ := except_bind_ok h
    obtain ⟨events, hevents, hpure⟩ := except_bind_ok hserialize
    obtain ⟨hroom, rfl⟩ := (serializeAll_ok hobj).mp hevents
    cases hpure
    exact ⟨hroom, (respond_ok_iff (hdepth hroom) body).mp hrespond⟩
  · rintro ⟨hroom, hrender⟩
    have hserialize : page.serialize env = .ok page.served := by
      rw [EventsListResponse.serialize, (serializeAll_ok hobj).mpr ⟨hroom, rfl⟩]
      rfl
    rw [hserialize]
    exact (respond_ok_iff (hdepth hroom) body).mpr hrender

theorem getEvent_row {row : Event} (h : row ∈ s.rows) : getEvent s row.id = .ok (eventItem row) := by
  rw [getEvent, Store.get_eq_some.mpr ⟨h, rfl⟩]

theorem getEvent_stored {item : EventItem} (h : getEvent s id = .ok item) :
    ∃ row ∈ s.rows, row.id = id ∧ item = eventItem row := by
  unfold getEvent at h
  split at h
  · next row hget =>
    cases h
    obtain ⟨hrow, hid⟩ := Store.get_eq_some.mp hget
    exact ⟨row, hrow, hid, rfl⟩
  · cases h

/-- An item of a page is what `get_event` returns. -/
theorem listEvents_items {coll : Collation} {limit : Nat} {cursor source : Option String}
    {page : EventsListResponse} (h : listEvents env coll s limit cursor source = .ok page) :
    ∀ item ∈ page.events, getEvent s item.eventId = .ok item := by
  unfold listEvents at h
  cases hc : cursorParameter env cursor with
  | error exc =>
    rw [hc] at h
    cases h
  | ok bound =>
    rw [hc] at h
    cases h
    intro item hitem
    obtain ⟨row, hrow, rfl⟩ := List.mem_map.mp hitem
    have hstored : row ∈ s.rows := by
      have hmem := List.mem_of_mem_take (List.mem_of_mem_take hrow)
      exact (List.mem_filter.mp ((List.mem_insertionSort _).mp hmem)).1
    exact getEvent_row hstored

end

/-! ## The payload of a request -/

section

variable {env : Env} {w w' : World} {as : List Act} {os : List Obs}

/-- The request behind a built event, and the state it arrived in. -/
theorem arrival_of_built (h : Run (step env) World.initial as os w) {r : Nat} {i : Intake}
    (hb : .built r i ∈ os) : ∃ al ar ol t p req draws,
      as = al ++ .request p r req draws :: ar ∧ Run (step env) World.initial al ol t ∧
      buildEvent env p (t.procs p).dispatcher.hasCapacity req draws = .ok i := by
  obtain ⟨l, m, rfl⟩ := List.append_of_mem hb
  obtain ⟨al, a, ar, t, t', rfl, hl, hs, -⟩ := h.cut
  have hm := Move.of_step hs
  cases hm with
  | built _ _ hbuild => exact ⟨al, ar, l, t, _, _, _, rfl, hl, hbuild⟩

/-- A row that was inserted and not deleted can be fetched, with the intake
columns it was inserted with. -/
theorem inserted_fetched (h : Run (step env) World.initial as os w) {r : Nat} {row : Event}
    (hins : .inserted r row ∈ os) (hdel : ∀ ids, .deleted ids ∈ os → row.id ∉ ids) :
    ∃ row', w.store.get row.id = some row' ∧ row'.toIntakeColumns = row.toIntakeColumns := by
  obtain ⟨l, m, rfl⟩ := List.append_of_mem hins
  obtain ⟨al, a, ar, t, t', -, hl, hs, hr⟩ := h.cut
  obtain ⟨-, -, -, hstore⟩ := (Move.of_step hs).inserted_inv
  have hrow : row ∈ t'.store.rows := (Store.mem_insert hstore).mpr (.inr rfl)
  obtain ⟨row', hrow', hcols⟩ := row_kept hr hrow (fun ids hmem =>
    hdel ids (List.mem_append_right _ (List.mem_cons_of_mem _ hmem)))
  exact ⟨row', Store.get_eq_some.mpr ⟨hrow', congrArg IntakeColumns.id hcols⟩, hcols⟩

/-- The payload of a stored row is an object that `json.loads` returned. -/
theorem row_payload (h : Run (step env) World.initial as os w) {row : Event} (hrow : row ∈ w.store.rows) :
    (∃ items, row.payload = .obj items) ∧ ∃ text, loads env.json text = .ok row.payload := by
  obtain ⟨r, row₀, hins, hcols⟩ := row_inserted h row hrow
  obtain ⟨i, hb, rfl⟩ := built_of_inserted h hins
  obtain ⟨al, ar, ol, t, p, req, draws, -, -, hbuild⟩ := arrival_of_built h hb
  obtain ⟨payload, hvalid, -, hcolumns, -⟩ := buildEvent_ok hbuild
  have hpayload : row.payload = payload :=
    (congrArg IntakeColumns.payload hcols).symm.trans (congrArg IntakeColumns.payload hcolumns)
  obtain ⟨decoded, items, -, hloads, rfl⟩ := parseBody_ok (validateRequest_ok hvalid).2.2.2
  rw [hpayload]
  exact ⟨⟨items, rfl⟩, decoded, hloads⟩

theorem item_payload (h : Run (step env) World.initial as os w) {id : String} {item : EventItem}
    (hitem : getEvent w.store id = .ok item) :
    (∃ items, item.payload = .obj items) ∧ ∃ text, loads env.json text = .ok item.payload := by
  obtain ⟨row, hrow, -, rfl⟩ := getEvent_stored hitem
  exact row_payload h hrow

end

/-! ## Two bodies -/

/-- Ids compared by code points. -/
def codePointOrder : Collation where
  lt a b := decide (a < b)
  irrefl a := decide_eq_false (lt_irrefl a)
  trans _ _ _ hab hbc := decide_eq_true (lt_trans (of_decide_eq_true hab) (of_decide_eq_true hbc))
  connected _ _ hab hba :=
    le_antisymm (not_lt.mp (of_decide_eq_false hba)) (not_lt.mp (of_decide_eq_false hab))

/-- A request with a given body is accepted. -/
def bodyActs (body : String) : List Act :=
  [.startup 0, .request 0 1 (sampleRequest none body) (sampleDraws 1 10), .handler 1, .handler 1,
    .handler 1]

/-- The inserted rows of a history. -/
def Obs.insertedRow : Obs → Option (Nat × Event)
  | .inserted r row => some (r, row)
  | _ => none

theorem mem_insertedRows {os : List Obs} {r : Nat} {row : Event}
    (h : (r, row) ∈ os.filterMap Obs.insertedRow) : .inserted r row ∈ os := by
  obtain ⟨o, ho, hf⟩ := List.mem_filterMap.mp h
  unfold Obs.insertedRow at hf
  split at hf
  · cases hf
    exact ho
  · cases hf

theorem toOption_ok {ε α : Type} {x : Except ε α} {a : α} (h : x.toOption = some a) : x = .ok a := by
  cases x with
  | error e => cases h
  | ok b => exact congrArg Except.ok (Option.some.inj h)

/-- Whether an observation is a cleanup. -/
def Obs.isDeleted : Obs → Bool
  | .deleted _ => true
  | _ => false

end WebhookRelay
