import WebhookRelay.Deliveries
import WebhookRelay.Middleware
import WebhookRelay.Readback

/-
  One request id for a webhook. The middleware takes it from the request or draws
  it, `create_event` stores it, and the relay sends it on; each does so by code of
  its own. `request_id_kept` says that in every run it is the same text in the
  response, in the row and in the POST, and never empty. An instance that receives
  the POST takes the id from it, so a chain of instances of any length keeps the id
  of its first request (`relays_keep_id`).
-/
namespace WebhookRelay

open Py Transition

/-- How the middleware sees a request to `create_event`. -/
def Request.http (req : Request) : HttpRequest where
  method := "POST"
  path := "/webhooks/" ++ req.source
  headers := req.headers
  route := some "/webhooks/{source}"

/-- The id of a request is not empty. -/
theorem contextRequestId_ne (req : Request) (draws : Draws) : contextRequestId req draws ≠ "" := by
  unfold contextRequestId
  split
  · next name value h =>
    unfold presentHeader at h
    split at h
    · split at h
      · cases h
      · next hne =>
        cases h
        exact hne
    · cases h
  · intro hempty
    have hlength := draws.requestUuid.length_eq
    rw [hempty] at hlength
    cases hlength

/-- A header that is not empty is the id. -/
theorem contextRequestId_header {req : Request} {value : String} (draws : Draws)
    (h : req.header "x-request-id" = some value) (hne : value ≠ "") : contextRequestId req draws = value := by
  simp only [contextRequestId, presentHeader, h, if_neg hne]

section

variable {env : Env} {w : World} {as : List Act} {os : List Obs}

/-- What the service shows of an id to a client, in a row, and to the target. -/
structure Carries (env : Env) (os : List Obs) (r : Nat) (req : Request) (draws : Draws) (event : String) (id : String) :
    Prop where
  responded : ∀ m m' sent h, serve env m ⟨req.http, draws.requestUuid, h⟩ = some (m', sent) →
    (∀ exc, h ≠ .raised exc) → sent.response.headers.lookup "x-request-id" = some id
  stored : ∀ row, .inserted r row ∈ os → row.requestId = id ∧ row.headers.lookup "x-request-id" = some id
  relayed : ∀ p t post, .job p t event (.posted post) ∈ os →
    post.xRequestId = id ∧ post.json.headers.lookup "x-request-id" = some id

theorem carried (h : Run (step env) World.initial as os w) {r p : Nat} {i : Intake} {capacity : Except PyExc Bool}
    {req : Request} {draws : Draws} (hbuilt : .built r i ∈ os)
    (hb : buildEvent env p capacity req draws = .ok i) :
    Carries env os r req draws i.event.id (contextRequestId req draws) := by
  obtain ⟨payload, -, -, hcols, -⟩ := buildEvent_ok hb
  have hid : i.event.requestId = contextRequestId req draws := congrArg IntakeColumns.requestId hcols
  have hheader : i.event.headers.lookup "x-request-id" = some (contextRequestId req draws) := by
    rw [show i.event.headers = dictSet "x-request-id" (contextRequestId req draws) (safeHeaders req) from
      congrArg IntakeColumns.headers hcols]
    exact lookup_dictSet ..
  refine ⟨?_, ?_, ?_⟩
  · intro m m' sent hend hserve hnot
    obtain ⟨hexchange, ⟨-, -, htraceable⟩ | ⟨hescaped, -⟩⟩ := serve_cases hserve
    · rw [Sent.traceable, hexchange] at htraceable
      exact htraceable.trans (congrArg some (requestId_context req draws _ _ _))
    · cases hend with
      | raised exc => exact absurd rfl (hnot exc)
      | returned _ | httpException _ _ | validationError _ => cases hescaped
  · intro row hrow
    obtain ⟨i', hbuilt', rfl⟩ := built_of_inserted h hrow
    obtain rfl := (shape_run h r).built_unique (mem_trail.mpr ⟨hbuilt, rfl⟩) (mem_trail.mpr ⟨hbuilt', rfl⟩)
    exact ⟨hid, hheader⟩
  · intro q t post hpost
    obtain ⟨job, r', i', hjob, heq, -, hjson, hx⟩ := post_of_job h hpost
    have hevent : i'.event.id = i.event.id := by
      rw [hjob.job] at heq
      exact heq
    obtain ⟨-, rfl⟩ := built_unique h hjob.built hbuilt hevent
    rw [hx, hjson, hjob.job]
    exact ⟨hid, hheader⟩

/-- **One id.** In every run, for each request that got past the checks, one text
that is not empty is the id in its response, in its row, and in each POST that is
made for it. -/
theorem request_id_kept (h : Run (step env) World.initial as os w) {r : Nat} {i : Intake} (hbuilt : .built r i ∈ os) :
    ∃ p req draws id, .request p r req draws ∈ as ∧ id ≠ "" ∧ Carries env os r req draws i.event.id id := by
  obtain ⟨al, ar, ol, t, p, req, draws, rfl, -, hb⟩ := arrival_of_built h hbuilt
  exact ⟨p, req, draws, _, List.mem_append_right _ List.mem_cons_self, contextRequestId_ne req draws,
    carried h hbuilt hb⟩

end

theorem delivered_built :
    ∃ w os r i p t post, exec (step sampleEnv) World.initial (acceptActs ++ deliverActs) = some (w, os) ∧
      .built r i ∈ os ∧ .inserted r (i.row sampleEnv) ∈ os ∧ .job p t i.event.id (.posted post) ∈ os := by
  obtain ⟨w, os, p, t, post, h, ho, -⟩ := delivered_post
  obtain ⟨job, r, i, hjob, hid, -⟩ := post_of_job (Run.of_exec h) ho
  have hevent : i.event.id = (sampleDraws 1 10).eventUuid.text := by
    rw [← hid, hjob.job]
    rfl
  exact ⟨w, os, r, i, p, t, post, h, hjob.built, hjob.inserted, hevent ▸ ho⟩

/-- The row of a delivery and its POST have the same id. -/
theorem request_id_kept_delivered :
    ∃ w os r i row p t post, exec (step sampleEnv) World.initial (acceptActs ++ deliverActs) = some (w, os) ∧
      .built r i ∈ os ∧ .inserted r row ∈ os ∧ .job p t i.event.id (.posted post) ∈ os ∧
      row.requestId = post.xRequestId ∧ post.xRequestId ≠ "" := by
  obtain ⟨w, os, r, i, p, t, post, h, hbuilt, hinserted, ho⟩ := delivered_built
  obtain ⟨-, req, draws, id, -, hne, hcarries⟩ := request_id_kept (Run.of_exec h) hbuilt
  have hpost := (hcarries.relayed p t post ho).1
  refine ⟨w, os, r, i, _, p, t, post, h, hbuilt, hinserted, ho, ?_, hpost ▸ hne⟩
  rw [hpost]
  exact (hcarries.stored _ hinserted).1

/-! ## Chains -/

/-- A request to one instance leads to a request to another, over POSTs that each
instance made for what it received. -/
inductive Leads : Request → Draws → Request → Draws → Prop where
  | here {req : Request} {draws : Draws} : Leads req draws req draws
  | hop {env : Env} {w : World} {as : List Act} {os : List Obs} {p r q t : Nat} {i : Intake}
      {capacity : Except PyExc Bool} {req req' req'' : Request} {draws draws' draws'' : Draws} {post : Post}
      (h : Run (step env) World.initial as os w) (hb : buildEvent env p capacity req draws = .ok i)
      (hbuilt : .built r i ∈ os) (hpost : .job q t i.event.id (.posted post) ∈ os)
      (hheader : req'.header "x-request-id" = some post.xRequestId) (hrest : Leads req' draws' req'' draws'') :
      Leads req draws req'' draws''

/-- **Chains keep the id.** Whatever instances a webhook is relayed through, its
last request has the id of its first. -/
theorem relays_keep_id {req req' : Request} {draws draws' : Draws} (h : Leads req draws req' draws') :
    contextRequestId req' draws' = contextRequestId req draws := by
  induction h with
  | here => rfl
  | @hop env w as os p r q t i capacity req req' req'' draws draws' draws'' post hrun hb hbuilt hpost hheader _ ih =>
    obtain ⟨hid, -⟩ := (carried hrun hbuilt hb).relayed q t post hpost
    rw [hid] at hheader
    rw [ih]
    exact contextRequestId_header draws' hheader (contextRequestId_ne req draws)

/-- A request made from the POST of a delivery has the id of the first request. -/
theorem relays_keep_id_relayed :
    ∃ (post : Post) (req' : Request), req'.header "x-request-id" = some post.xRequestId ∧
      contextRequestId req' (sampleDraws 2 20) = "req-1" := by
  obtain ⟨w, os, r, i, p, t, post, h, hbuilt, -, ho⟩ := delivered_built
  obtain ⟨al, ar, ol, t', q, req, draws, has, -, hb⟩ := arrival_of_built (Run.of_exec h) hbuilt
  have hreq : Act.request q r req draws ∈ acceptActs ++ deliverActs := has ▸ List.mem_append_right al List.mem_cons_self
  simp only [acceptActs, deliverActs, List.cons_append, List.nil_append, List.mem_cons, List.not_mem_nil, or_false,
    false_or, reduceCtorEq, Act.request.injEq] at hreq
  obtain ⟨rfl, rfl, rfl, rfl⟩ := hreq
  let req' : Request := { sampleRequest none "" with headers := [("x-request-id", post.xRequestId)] }
  refine ⟨post, req', rfl, ?_⟩
  exact relays_keep_id (.hop (Run.of_exec h) hb hbuilt ho rfl .here)

end WebhookRelay
