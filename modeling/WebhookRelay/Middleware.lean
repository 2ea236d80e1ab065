import WebhookRelay.Admission

/-
  The HTTP layer of main.py and core/errors.py: the middleware that sets the
  request id and counts, the exception handlers, and the order in which the
  framework nests them. HTTPException and validation errors become responses
  inside `call_next`; the handler registered for Exception runs outside the
  middleware, so `call_next` re-raises any other exception.

  What is proved of every sequence of requests: `responses_balance`, the counter
  of each label, the histogram of each label, and the X-Request-ID header are
  right exactly when no route handler raised such an exception.
-/
namespace WebhookRelay

open Py Transition

/-! ## Responses -/

inductive Content where
  | json (value : Json)
  | raw (bytes : List UInt8)

/-- A response as a handler returns it; header names are in lower case, and the
content length is left to the server. -/
structure Response where
  status : Nat
  headers : List (String × String)
  content : Content

/-- `error_response`. -/
def errorResponse (statusCode : Nat) (code message : String) (details : Option Json) : Response where
  status := statusCode
  headers := [("content-type", "application/json")]
  content := .json (.obj [(text "error", .obj
    ([(text "code", .str (text code)), (text "message", .str (text message))] ++
      (details.map (fun d => (text "details", d))).toList))])

/-- `http_exception_handler`, for a detail that is a text. -/
def httpExceptionHandler (env : Env) (status : Nat) (detail : String) : Response :=
  errorResponse status ((env.lower detail).map (fun c => if c = ' ' then '_' else c)) detail none

/-- `validation_exception_handler`. -/
def validationExceptionHandler (errors : Json) : Response :=
  errorResponse 422 "validation_error" "Request validation failed" (some errors)

/-- `unhandled_exception_handler`. -/
def unhandledExceptionHandler : Response :=
  errorResponse 500 "internal_server_error" "Internal Server Error" none

/-- `response.headers[name] = value`. -/
def setHeader (name value : String) : List (String × String) → List (String × String)
  | [] => [(name, value)]
  | item :: items =>
    if item.1 = name then (name, value) :: items.filter (fun i => i.1 ≠ name)
    else item :: setHeader name value items

theorem lookup_setHeader (name value : String) (items : List (String × String)) :
    (setHeader name value items).lookup name = some value := by
  induction items with
  | nil => simp [setHeader]
  | cons item items ih =>
    rw [setHeader]
    split
    · simp
    · next hne =>
      rw [List.lookup_cons, beq_false_of_ne (Ne.symm hne)]
      exact ih

/-! ## The middleware -/

structure HttpRequest where
  method : String
  path : String
  headers : List (String × String)
  /-- the path template of the route the request is matched to -/
  route : Option String

/-- How the code inside the middleware ends. -/
inductive HandlerEnd where
  | returned (response : Response)
  | httpException (status : Nat) (detail : String)
  | validationError (errors : Json)
  | raised (exc : PyExc)

/-- How a route handler ends that raises. -/
def PyExc.handlerEnd : PyExc → HandlerEnd
  | .httpException status detail => .httpException status detail
  | exc => .raised exc

/-- `REQUEST_COUNT` and the number of observations of `REQUEST_LATENCY`. -/
structure HttpMetrics where
  requestCount : String × String × String → Nat := fun _ => 0
  requestLatency : String × String → Nat := fun _ => 0

/-- `_label_path`. -/
def labelPath (req : HttpRequest) : String :=
  match req.route with
  | some path => if path = "" then req.path else path
  | none => req.path

/-- The request id of the middleware. -/
def requestId (req : HttpRequest) (uuid : Uuid) : String :=
  match req.headers.lookup "x-request-id" with
  | some value => if value = "" then uuid.text else value
  | none => uuid.text

/-- The id a response carries is the one `create_event` stores. -/
theorem requestId_context (req : Request) (draws : Draws) (method path : String) (route : Option String) :
    requestId ⟨method, path, req.headers, route⟩ draws.requestUuid = contextRequestId req draws := by
  unfold requestId contextRequestId presentHeader Request.header
  cases req.headers.lookup "x-request-id" with
  | none => rfl
  | some value => by_cases h : value = "" <;> simp [h]

/-- `call_next`. -/
def callNext (env : Env) : HandlerEnd → Except PyExc Response
  | .returned response => .ok response
  | .httpException status detail => .ok (httpExceptionHandler env status detail)
  | .validationError errors => .ok (validationExceptionHandler errors)
  | .raised exc => .error exc

def HttpMetrics.observe (m : HttpMetrics) (req : HttpRequest) (status : Nat) : HttpMetrics where
  requestCount :=
    let labels := (req.method, labelPath req, toString status)
    Function.update m.requestCount labels (m.requestCount labels + 1)
  requestLatency :=
    let labels := (req.method, labelPath req)
    Function.update m.requestLatency labels (m.requestLatency labels + 1)

/-- `add_request_id`. -/
def addRequestId (env : Env) (m : HttpMetrics) (req : HttpRequest) (uuid : Uuid) (h : HandlerEnd) :
    HttpMetrics × Except PyExc Response :=
  match callNext env h with
  -- the exception passes through, and nothing after `call_next` runs
  | .error exc => (m, .error exc)
  | .ok response => (m.observe req response.status, .ok { response with
      headers := setHeader "x-request-id" (requestId req uuid) response.headers })

/-- A request, the uuid drawn for it, and how its handler ends. -/
structure Exchange where
  request : HttpRequest
  uuid : Uuid
  handlerEnd : HandlerEnd

/-- A response as it was sent. -/
structure Sent where
  exchange : Exchange
  response : Response

/-- One request through the whole application. -/
def serve (env : Env) (m : HttpMetrics) (x : Exchange) : Option (HttpMetrics × Sent) :=
  match addRequestId env m x.request x.uuid x.handlerEnd with
  | (m', .ok response) => some (m', ⟨x, response⟩)
  | (m', .error _) => some (m', ⟨x, unhandledExceptionHandler⟩)

/-! ## What is counted -/

/-- The handler raised what only the outermost handler turns into a response. -/
def Exchange.escaped (x : Exchange) : Bool :=
  match x.handlerEnd with
  | .raised _ => true
  | _ => false

def Sent.labels (o : Sent) : String × String × String :=
  (o.exchange.request.method, labelPath o.exchange.request, toString o.response.status)

def Sent.latencyLabels (o : Sent) : String × String :=
  (o.exchange.request.method, labelPath o.exchange.request)

/-- The response carries the id of its request. -/
def Sent.traceable (o : Sent) : Prop :=
  o.response.headers.lookup "x-request-id" = some (requestId o.exchange.request o.exchange.uuid)

section

variable {env : Env} {m m' : HttpMetrics} {x : Exchange} {o : Sent} {xs : List Exchange} {os : List Sent}

/-- What one request does: it is counted and its response carries the id, or it
escaped, and neither happened. -/
theorem serve_cases (h : serve env m x = some (m', o)) :
    o.exchange = x ∧
      ((x.escaped = false ∧ m' = m.observe x.request o.response.status ∧ o.traceable) ∨
        x.escaped = true ∧ m' = m ∧ o.response = unhandledExceptionHandler) := by
  have hcounted : ∀ response, callNext env x.handlerEnd = .ok response → x.escaped = false →
      o.exchange = x ∧
        ((x.escaped = false ∧ m' = m.observe x.request o.response.status ∧ o.traceable) ∨
          x.escaped = true ∧ m' = m ∧ o.response = unhandledExceptionHandler) := by
    intro response hnext hesc
    simp only [serve, addRequestId, hnext, Option.some.injEq, Prod.mk.injEq] at h
    obtain ⟨rfl, rfl⟩ := h
    exact ⟨rfl, .inl ⟨hesc, rfl, lookup_setHeader ..⟩⟩
  cases hend : x.handlerEnd with
  | returned response =>
    exact hcounted response (by rw [hend]; rfl) (by rw [Exchange.escaped, hend])
  | httpException status detail =>
    exact hcounted _ (by rw [hend]; rfl) (by rw [Exchange.escaped, hend])
  | validationError errors =>
    exact hcounted _ (by rw [hend]; rfl) (by rw [Exchange.escaped, hend])
  | raised exc =>
    simp only [serve, addRequestId, hend, callNext, Option.some.injEq, Prod.mk.injEq] at h
    obtain ⟨rfl, rfl⟩ := h
    exact ⟨rfl, .inr ⟨by rw [Exchange.escaped, hend], rfl, rfl⟩⟩

/-- The responses of a run answer its requests in order. -/
theorem exchanges_run (h : Run (serve env) m xs os m') : os.map Sent.exchange = xs := by
  induction h with
  | nil => rfl
  | snoc _ hs ih => rw [List.map_append, ih, List.map_singleton, (serve_cases hs).1]

/-- A run counts each response once, but for those whose handler escaped. -/
theorem count_run (h : Run (serve env) m xs os m') (k : String × String × String) :
    m'.requestCount k + os.countP (fun o => o.exchange.escaped && o.labels = k) =
      m.requestCount k + os.countP (fun o => o.labels = k) := by
  refine h.count (f := fun t => t.requestCount k) ?_
  intro t x t' o hs
  obtain ⟨rfl, ⟨hesc, rfl, -⟩ | ⟨hesc, rfl, -⟩⟩ := serve_cases hs
  · simp only [hesc, Bool.false_and, Bool.false_eq_true, if_false, decide_eq_true_eq, Nat.add_zero]
    exact update_succ_apply t.requestCount o.labels k
  · rw [hesc, Bool.true_and]

theorem latency_run (h : Run (serve env) m xs os m') (k : String × String) :
    m'.requestLatency k + os.countP (fun o => o.exchange.escaped && o.latencyLabels = k) =
      m.requestLatency k + os.countP (fun o => o.latencyLabels = k) := by
  refine h.count (f := fun t => t.requestLatency k) ?_
  intro t x t' o hs
  obtain ⟨rfl, ⟨hesc, rfl, -⟩ | ⟨hesc, rfl, -⟩⟩ := serve_cases hs
  · simp only [hesc, Bool.false_and, Bool.false_eq_true, if_false, decide_eq_true_eq, Nat.add_zero]
    exact update_succ_apply t.requestLatency o.latencyLabels k
  · rw [hesc, Bool.true_and]

/-- A response carries its request's id exactly when the handler did not
escape. -/
theorem traceable_run (h : Run (serve env) m xs os m') :
    ∀ o ∈ os, (o.traceable ↔ o.exchange.escaped = false) := by
  refine h.history (I := fun _ os => ∀ o ∈ os, (o.traceable ↔ o.exchange.escaped = false))
    (fun o ho => nomatch ho) ?_
  intro t os t' x o hpre hs o' ho'
  rcases List.mem_append.mp ho' with ho' | ho'
  · exact hpre o' ho'
  obtain rfl := List.mem_singleton.mp ho'
  obtain ⟨rfl, ⟨hesc, -, htrace⟩ | ⟨hesc, -, hresp⟩⟩ := serve_cases hs
  · exact iff_of_true htrace hesc
  · refine iff_of_false ?_ (by rw [hesc]; exact nofun)
    intro htrace
    rw [Sent.traceable, hresp] at htrace
    cases htrace

/-- Counters that miss the escaped responses of every label are right exactly
when there are none. -/
theorem counts_right_iff {κ : Type} [DecidableEq κ] {before after : κ → Nat} {labels : Sent → κ}
    (h : ∀ k, after k + os.countP (fun o => o.exchange.escaped && labels o = k) =
      before k + os.countP (fun o => labels o = k)) :
    (∀ k, after k = before k + os.countP (fun o => labels o = k)) ↔
      ∀ o ∈ os, o.exchange.escaped = false := by
  constructor
  · intro hright o ho
    have hk := h (labels o)
    rw [hright (labels o)] at hk
    have hnone : os.countP (fun o' => o'.exchange.escaped && labels o' = labels o) = 0 := by omega
    have ho' := List.countP_eq_zero.mp hnone o ho
    simpa using ho'
  · intro hnone k
    have hzero : os.countP (fun o => o.exchange.escaped && labels o = k) = 0 := by
      rw [List.countP_eq_zero]
      intro o ho
      rw [hnone o ho]
      exact Bool.false_ne_true
    rw [← h k, hzero, Nat.add_zero]

/-- The counter, the histogram and the header of every response are as they
should be. -/
structure Balanced (m m' : HttpMetrics) (os : List Sent) : Prop where
  counted : ∀ k, m'.requestCount k = m.requestCount k + os.countP (fun o => o.labels = k)
  timed : ∀ k, m'.requestLatency k = m.requestLatency k + os.countP (fun o => o.latencyLabels = k)
  traceable : ∀ o ∈ os, o.traceable

/-- **Responses balance.** Over every sequence of requests, all responses are
counted, timed and traceable if and only if no route handler raised an exception
other than HTTPException and validation errors. One that did makes each of the
three wrong. -/
theorem responses_balance (h : Run (serve env) m xs os m') :
    (Balanced m m' os ↔ ∀ x ∈ xs, x.escaped = false) ∧
    ((∃ x ∈ xs, x.escaped = true) →
      (¬ ∀ k, m'.requestCount k = m.requestCount k + os.countP (fun o => o.labels = k)) ∧
      (¬ ∀ k, m'.requestLatency k = m.requestLatency k + os.countP (fun o => o.latencyLabels = k)) ∧
      ¬ ∀ o ∈ os, o.traceable) := by
  have hxs : (∀ x ∈ xs, x.escaped = false) ↔ ∀ o ∈ os, o.exchange.escaped = false := by
    rw [← exchanges_run h, List.forall_mem_map]
  have hcount := counts_right_iff (count_run h)
  have hlatency := counts_right_iff (latency_run h)
  have htrace : (∀ o ∈ os, o.traceable) ↔ ∀ o ∈ os, o.exchange.escaped = false :=
    forall₂_congr (traceable_run h)
  refine ⟨?_, ?_⟩
  · rw [hxs]
    constructor
    · intro hb
      exact hcount.mp hb.counted
    · intro hnone
      exact ⟨hcount.mpr hnone, hlatency.mpr hnone, htrace.mpr hnone⟩
  · intro h'
    obtain ⟨x, hx, hesc⟩ := h'
    have hsome : ¬ ∀ o ∈ os, o.exchange.escaped = false := by
      intro hnone
      rw [hxs.mpr hnone x hx] at hesc
      cases hesc
    exact ⟨mt hcount.mp hsome, mt hlatency.mp hsome, mt htrace.mp hsome⟩

end

/-- A request to `create_event`, and how its handler ends. -/
def sampleExchange (h : HandlerEnd) : Exchange where
  request := {
    method := "POST"
    path := "/webhooks/demo"
    headers := [("x-request-id", "req-1")]
    route := some "/webhooks/\x7bsource\x7d" }
  uuid := (sampleDraws 1 10).requestUuid
  handlerEnd := h

/-- A body of one byte 0xFF ends the handler with UnicodeDecodeError; the 500 is
neither counted, nor timed, nor traceable. -/
theorem undecodable_body_unbalanced :
    ∃ m' o, serve sampleEnv {} (sampleExchange (PyExc.handlerEnd .unicodeDecodeError)) = some (m', o) ∧
      o.response.status = 500 ∧ m'.requestCount o.labels = 0 ∧ m'.requestLatency o.latencyLabels = 0 ∧
      ¬ o.traceable ∧ ¬ Balanced {} m' [o] := by
  have huntraced : ¬ Sent.traceable
      ⟨sampleExchange (PyExc.handlerEnd .unicodeDecodeError), unhandledExceptionHandler⟩ := by
    intro h
    cases h
  refine ⟨{}, ⟨sampleExchange (PyExc.handlerEnd .unicodeDecodeError), unhandledExceptionHandler⟩, rfl,
    rfl, rfl, rfl, huntraced, ?_⟩
  intro hb
  exact huntraced (hb.traceable _ (List.mem_singleton_self _))

/-- A request that ends in a 404 is counted, timed and traceable. -/
theorem responses_balance_notFound :
    ∃ m' o, serve sampleEnv {} (sampleExchange (.httpException 404 "Not found")) = some (m', o) ∧
      Balanced {} m' [o] := by
  refine ⟨_, _, rfl, ?_⟩
  apply (responses_balance (.single (a := sampleExchange (.httpException 404 "Not found")) rfl)).1.mpr
  intro x hx
  obtain rfl := List.mem_singleton.mp hx
  rfl

end WebhookRelay
