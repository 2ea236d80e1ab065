import WebhookRelay.Jobs
import WebhookRelay.Lifecycle

/-
  Outbound deliveries. `Tally` is what the trace of a job can hold at each
  position: one call, one POST for each attempt begun, and no success before a
  POST. Since the effects of an event are the trace of one job (`Traced`), its
  bounds are bounds on whole runs, and the job's arguments tie every POST to the
  row its event was inserted with.
-/
namespace WebhookRelay

open Py Transition

/-! ## The trace of a job -/

def Effect.isCall : Effect → Bool
  | .called => true
  | _ => false

def Effect.isPost : Effect → Bool
  | .posted _ => true
  | _ => false

/-- A POST has been answered with a 2xx. -/
def Effect.isSuccess : Effect → Bool
  | .answered res => res.ok
  | _ => false

/-- A job that may still send a POST. -/
def Position.Pending : Position → Prop
  | .start | .resolving | .attempt _ _ | .inFlight _ _ => True
  | .persist _ | .returned | .raised _ => False

/-- How many POSTs a job has sent when it stands at a position. -/
def Position.Sent : Position → Nat → Prop
  | .start, k | .resolving, k => k = 0
  | .attempt n _, k => k + 1 = n ∧ n ≤ maxAttempts
  | .inFlight n _, k => k = n ∧ n ≤ maxAttempts
  | .persist _, k | .returned, k | .raised _, k => k ≤ maxAttempts

theorem Position.Sent.le {pos : Position} {k : Nat} (h : pos.Sent k) : k ≤ maxAttempts := by
  cases pos with
  | start | resolving =>
    rw [show k = 0 from h]
    exact Nat.zero_le _
  | attempt n vars =>
    obtain ⟨rfl, hn⟩ := h
    exact Nat.le_of_succ_le hn
  | inFlight n vars =>
    obtain ⟨rfl, hn⟩ := h
    exact hn
  | persist _ | returned | raised _ => exact h

/-- What the trace of a job holds at a position. -/
structure Tally (tr : List Effect) (pos : Position) : Prop where
  calls : tr.countP Effect.isCall ≤ 1
  fresh : pos = .start → tr = []
  posts : pos.Sent (tr.countP Effect.isPost)
  failed : pos.Pending → ∀ e ∈ tr, e.isSuccess = false
  ordered : tr.Pairwise (fun e e' => e.isSuccess = true → e'.isPost = false)

/-- A trace grows by an effect: a call only comes first, and a POST only after
failures. -/
theorem Tally.snoc {tr : List Effect} {pos pos' : Position} {eff : Effect} (h : Tally tr pos)
    (hcall : eff.isCall = true → tr = []) (hstart : pos' ≠ .start)
    (hposts : pos'.Sent (tr.countP Effect.isPost + if eff.isPost then 1 else 0))
    (hfailed : pos'.Pending → pos.Pending ∧ eff.isSuccess = false)
    (hpost : eff.isPost = true → pos.Pending) : Tally (tr ++ [eff]) pos' := by
  refine ⟨?_, fun h => absurd h hstart, ?_, ?_, ?_⟩
  · rw [List.countP_append, List.countP_singleton]
    cases hc : eff.isCall with
    | true =>
      rw [hcall hc]
      exact Nat.le_refl 1
    | false => exact h.calls
  · rw [List.countP_append, List.countP_singleton]
    exact hposts
  · intro hp e he
    obtain ⟨hpos, heff⟩ := hfailed hp
    rcases List.mem_append.mp he with he | he
    · exact h.failed hpos e he
    · rw [List.mem_singleton.mp he]
      exact heff
  · -- a POST only starts from a position that all earlier answers failed to
    refine List.pairwise_append.mpr ⟨h.ordered, List.pairwise_singleton _ _, ?_⟩
    intro e he e' he' hsuccess
    cases List.mem_singleton.mp he'
    cases hc : eff.isPost with
    | false => rfl
    | true =>
      have hfail := h.failed (hpost hc) e he
      rw [hsuccess] at hfail
      cases hfail

section

variable {env : Env} {client : Bool} {job : RelayJob} {tr : List Effect} {pos pos' : Position}
  {input : Input} {eff : Effect}

/-- After the resolution nothing has been sent. -/
theorem afterResolution_sent (env : Env) (client : Bool) (job : RelayJob) (ips : List String) :
    (afterResolution env client job ips).Sent 0 ∧ afterResolution env client job ips ≠ .start := by
  rcases afterResolution_cases env client job ips with ⟨_, -, h⟩ | ⟨_, -, h⟩ | ⟨-, _, h⟩ | ⟨-, h⟩ <;> rw [h]
  · exact ⟨Nat.zero_le _, Position.noConfusion⟩
  · exact ⟨Nat.zero_le _, Position.noConfusion⟩
  · exact ⟨Nat.zero_le _, Position.noConfusion⟩
  · exact ⟨⟨rfl, by decide⟩, Position.noConfusion⟩

/-- Each turn of a job keeps the tally. -/
theorem Tally.turn (h : Tally tr pos) (ht : Turn env client job pos input pos' eff) :
    Tally (tr ++ [eff]) pos' := by
  have hposts := h.posts
  cases ht with
  | unparsed _ | skipped _ =>
    have hempty := h.fresh rfl
    subst hempty
    refine h.snoc (fun _ => rfl) Position.noConfusion ?_ (fun _ => ⟨trivial, rfl⟩) (fun hf => by cases hf)
    exact Nat.zero_le _
  | named _ _ =>
    have hempty := h.fresh rfl
    subst hempty
    exact h.snoc (fun _ => rfl) Position.noConfusion rfl (fun _ => ⟨trivial, rfl⟩) (fun hf => by cases hf)
  | literal _ _ =>
    have hempty := h.fresh rfl
    subst hempty
    obtain ⟨hsent, hstart⟩ := afterResolution_sent env client job _
    exact h.snoc (fun _ => rfl) hstart hsent (fun _ => ⟨trivial, rfl⟩) (fun hf => by cases hf)
  | @resolved ips =>
    obtain ⟨hsent, hstart⟩ := afterResolution_sent env client job ips
    refine h.snoc (fun hf => by cases hf) hstart ?_ (fun _ => ⟨trivial, rfl⟩) (fun hf => by cases hf)
    rw [show tr.countP Effect.isPost = 0 from hposts]
    exact hsent
  | gaierror | unresolved =>
    refine h.snoc (fun hf => by cases hf) Position.noConfusion ?_ (fun hf => hf.elim)
      (fun hf => by cases hf)
    rw [show tr.countP Effect.isPost = 0 from hposts]
    exact Nat.zero_le _
  | posted _ =>
    refine h.snoc (fun hf => by cases hf) Position.noConfusion ?_ (fun _ => ⟨trivial, rfl⟩)
      (fun _ => trivial)
    exact hposts
  | @answered n vars res =>
    -- the answer adds no POST, and only a failure leads to another attempt
    have hle : (afterPost n vars res).Sent n ∧ afterPost n vars res ≠ .start ∧
        ((afterPost n vars res).Pending → res.ok = false) := by
      rcases afterPost_cases n vars res with ⟨_, -, hp⟩ | ⟨hok, hn, _, hp⟩ | ⟨_, -, hp⟩ <;> rw [hp]
      · exact ⟨hposts.2, Position.noConfusion, fun hf => hf.elim⟩
      · exact ⟨⟨rfl, hn⟩, Position.noConfusion, fun _ => hok⟩
      · exact ⟨hposts.2, Position.noConfusion, fun hf => hf.elim⟩
    obtain ⟨hsent, hstart, hok⟩ := hle
    refine h.snoc (fun hf => by cases hf) hstart ?_ (fun hp => ⟨trivial, hok hp⟩) (fun hf => by cases hf)
    rw [hposts.1]
    exact hsent
  | recorded =>
    exact h.snoc (fun hf => by cases hf) Position.noConfusion hposts (fun hf => hf.elim)
      (fun hf => by cases hf)

theorem JobTrace.tally (h : JobTrace env job tr pos) : Tally tr pos := by
  induction h with
  | start =>
    refine ⟨Nat.zero_le 1, fun _ => rfl, rfl, ?_, .nil⟩
    intro _ e he
    cases he
  | turn _ ht ih => exact ih.turn ht

end

/-! ## Runs -/

/-- The JSON body that repeats a row. -/
def rowPayload (row : Event) : RelayPayload where
  eventId := row.id
  source := row.source
  receivedAt := (asUtc row.receivedAt).isoformat
  payload := row.payload
  headers := row.headers

/-- A POST whose payload is an object of plain values. -/
def Effect.postsFlat : Effect → Bool
  | .posted post => decide (post.json.payload.depth = 1)
  | _ => false

/-- A sample run that makes a POST. -/
theorem delivered_post :
    ∃ w os p t post, exec (step sampleEnv) World.initial (acceptActs ++ deliverActs) = some (w, os) ∧
      .job p t (sampleDraws 1 10).eventUuid.text (.posted post) ∈ os ∧ post.json.payload.depth = 1 := by
  have hrun : (exec (step sampleEnv) World.initial (acceptActs ++ deliverActs)).map (fun r =>
      (effects (sampleDraws 1 10).eventUuid.text r.2).countP Effect.postsFlat) = some 1 := by
    decide +kernel
  obtain ⟨⟨w, os⟩, h, hcount⟩ := Option.map_eq_some_iff.mp hrun
  obtain ⟨eff, heff, hpost⟩ := List.countP_pos_iff.mp (Nat.lt_of_lt_of_eq Nat.zero_lt_one hcount.symm)
  obtain ⟨o, ho, hobs⟩ := List.mem_filterMap.mp heff
  obtain ⟨p, t, rfl, -⟩ := Obs.effect_some hobs
  cases eff with
  | posted post => exact ⟨w, os, p, t, post, h, ho, of_decide_eq_true hpost⟩
  | taken | called | resolved | answered | recorded | finished | dropped => cases hpost

section

variable {env : Env} {w : World} {as : List Act} {os : List Obs}

/-- The job of an event carries the row that is inserted for it. -/
theorem relayJob_row {i : Intake} (h : i.FromRequest env) (settings : Settings) :
    (relayJob settings i.event).relayPayload = rowPayload (i.row env) := by
  obtain ⟨now, hnow⟩ := h.receivedAt
  have hrow : asUtc (i.row env).receivedAt = asUtc i.event.receivedAt := by
    change asUtc (storedDatetime env.dropsTz i.event.receivedAt) = _
    rw [hnow, asUtc, asUtc, storedDatetime_utc, Datetime.utc_ofUtc]
  rw [relayJob, rowPayload, hrow]
  rfl

/-- A request whose job was accepted was neither rejected nor replayed, and its
row was not marked queue-full. -/
theorem Shape.accepted {r p q : Nat} {h : Handler} {tr : List Obs} {job : RelayJob}
    (hs : Shape env r h tr) (he : .enqueued r p q job ∈ tr) :
    (∀ exc, .rejected r exc ∉ tr) ∧ (∀ row, .replayed r row ∉ tr) ∧ (∀ id, .marked r id ∉ tr) ∧
      ∃ i, .built r i ∈ tr ∧ (env.settings i.pid).targetUrl ≠ "" ∧ i.queuePreFull = false := by
  cases hs with
  | @enqueued i q' ht hq => simp_all
  | absent | rejected | inserting | recovering _ | counting | enqueuing _ _ | marking _ _
  | replayed _ _ _ | counted _ | marked _ _ | lostInsert _ _ | lostLookup _ | uninitialised _ _ =>
    simp at he

theorem Shape.marked_event {r : Nat} {id : String} {h : Handler} {tr : List Obs}
    (hs : Shape env r h tr) (he : .marked r id ∈ tr) : ∃ i, .built r i ∈ tr ∧ i.event.id = id := by
  cases hs <;> simp_all

/-- An event whose job was accepted is not marked queue-full, by any request: another
one would have had to build the same event. -/
theorem JobOf.not_marked (h : Run (step env) World.initial as os w) {p r : Nat} {job : RelayJob} {i : Intake}
    (hj : JobOf env os p job r i) (r' : Nat) : .marked r' job.eventId ∉ os := by
  intro hmem
  obtain ⟨q, hq⟩ := hj.accepted
  obtain ⟨-, -, hmark, -⟩ := (shape_run h r).accepted (mem_trail.mpr ⟨hq, rfl⟩)
  obtain ⟨i', hb', hid⟩ := (shape_run h r').marked_event (mem_trail.mpr ⟨hmem, rfl⟩)
  have hid' : i'.event.id = i.event.id := by
    rw [hid, hj.job]
    rfl
  obtain ⟨rfl, -⟩ := built_unique h (mem_trail.mp hb').1 hj.built hid'
  exact hmark _ (mem_trail.mpr ⟨hmem, rfl⟩)

/-- An effect in a history is that of the event's job, at the position its trace
has come to. -/
theorem job_of_effect (h : Run (step env) World.initial as os w) {l m : List Obs} {p t : Nat} {id : String}
    {eff : Effect} (hos : os = l ++ .job p t id eff :: m) (heff : Obs.effect id (.job p t id eff) = some eff) :
    ∃ job r i pos pos' input client, JobOf env os p job r i ∧ job.eventId = id ∧
      JobTrace env job (effects id l) pos ∧ Turn env client job pos input pos' eff := by
  subst hos
  obtain ⟨al, a, ar, t₀, t₁, -, hl, hs, -⟩ := h.cut
  obtain ⟨p', t', q, job, pos, pos', input, hold, rfl, -, -, ht, ho, -⟩ :=
    effect_turned (Move.of_step hs) (workers_run hl) heff
  cases ho
  obtain ⟨r, i, hi⟩ := (jobs_run hl).running_of hold
  exact ⟨job, r, i, pos, pos', input, _, hi.append _, rfl, (traced_run hl).running p t q job pos hold, ht⟩

/-- A POST is made by the job of its event, with that job's arguments. -/
theorem post_of_job (h : Run (step env) World.initial as os w) {p t : Nat} {id : String} {post : Post}
    (hp : .job p t id (.posted post) ∈ os) :
    ∃ job r i, JobOf env os p job r i ∧ job.eventId = id ∧ post.url = job.targetUrl ∧
      post.json = job.relayPayload ∧ post.xRequestId = job.requestId := by
  obtain ⟨l, m, hos⟩ := List.append_of_mem hp
  obtain ⟨job, r, i, pos, pos', input, client, hjob, hid, -, ht⟩ := job_of_effect h hos (if_pos rfl)
  refine ⟨job, r, i, hjob, hid, ?_⟩
  cases ht
  exact ⟨rfl, rfl, rfl⟩

/-- The effects of an event in a history are within the bounds of one job. -/
theorem effects_bounded (h : Run (step env) World.initial as os w) (id : String) :
    (effects id os).countP Effect.isCall ≤ 1 ∧ (effects id os).countP Effect.isPost ≤ maxAttempts ∧
      (effects id os).Pairwise (fun e e' => e.isSuccess = true → e'.isPost = false) := by
  rcases (traced_run h).whole id with hempty | ⟨p, r, i, pos, -, -, htr⟩
  · rw [hempty]
    exact ⟨Nat.zero_le 1, Nat.zero_le _, .nil⟩
  · have htally := htr.tally
    exact ⟨htally.calls, htally.posts.le, htally.ordered⟩

/-- Outbound deliveries in every run: for each event one call of `relay_event`,
at most four POSTs and none after a success, each to the target and with the
data of the row that was inserted, and only for requests that were neither
rejected nor replayed nor marked queue-full. -/
theorem outbound_deliveries (h : Run (step env) World.initial as os w) :
    (∀ id, (effects id os).countP Effect.isCall ≤ 1 ∧ (effects id os).countP Effect.isPost ≤ 4 ∧
      (effects id os).Pairwise (fun e e' => e.isSuccess = true → e'.isPost = false)) ∧
    ∀ p t id post, .job p t id (.posted post) ∈ os →
      ∃ r row, .inserted r row ∈ os ∧ row.id = id ∧
        (∀ r' i, .built r' i ∈ os → i.event.id = id → r' = r) ∧
        post.url = (env.settings p).targetUrl ∧ post.json = rowPayload row ∧
        post.xRequestId = row.requestId ∧
        (∀ exc, .rejected r exc ∉ os) ∧ (∀ row', .replayed r row' ∉ os) ∧
        (∀ r', .marked r' id ∉ os) ∧ row.relayReason ≠ some "relay_queue_full" := by
  refine ⟨?_, ?_⟩
  · exact effects_bounded h
  · intro p t id post hp
    obtain ⟨job, r, i, hjob, rfl, hurl, hjson, hxid⟩ := post_of_job h hp
    have hreq := (fresh_run h).fromRequest r i hjob.built
    obtain ⟨q, hq⟩ := hjob.accepted
    obtain ⟨hrej, hrep, -, i', hb', ht, hfull⟩ :=
      (shape_run h r).accepted (mem_trail.mpr ⟨hq, rfl⟩)
    obtain ⟨-, rfl⟩ := built_unique h (mem_trail.mp hb').1 hjob.built
      (by rw [(shape_run h r).built_unique hb' (mem_trail.mpr ⟨hjob.built, rfl⟩)])
    have honly : ∀ r' i₀, .built r' i₀ ∈ os → i₀.event.id = job.eventId → r' = r := by
      intro r' i₀ hb hid
      refine (built_unique h hb hjob.built ?_).1
      rw [hid, hjob.job]
      rfl
    refine ⟨r, i'.row env, hjob.inserted, ?_, honly, ?_, ?_, ?_, ?_, ?_, ?_, ?_⟩
    · rw [hjob.job]
      rfl
    · rw [hurl, hjob.job]
      rfl
    · rw [hjson, hjob.job, relayJob_row hreq]
    · rw [hxid, hjob.job]
      rfl
    · intro exc hmem
      exact hrej exc (mem_trail.mpr ⟨hmem, rfl⟩)
    · intro row' hmem
      exact hrep row' (mem_trail.mpr ⟨hmem, rfl⟩)
    · exact hjob.not_marked h
    · have hrow : (i'.row env).relayReason = some "scheduled" :=
        congrArg RelayColumns.relayReason (hreq.scheduled ht hfull)
      rw [hrow]
      decide

end

/-- The POST of a delivery repeats the row. -/
theorem outbound_deliveries_one :
    ∃ w os p t post, exec (step sampleEnv) World.initial (acceptActs ++ deliverActs) = some (w, os) ∧
      .job p t (sampleDraws 1 10).eventUuid.text (.posted post) ∈ os ∧
      ∃ r row, .inserted r row ∈ os ∧ post.url = "http://hooks.test/in" ∧ post.json = rowPayload row := by
  obtain ⟨w, os, p, t, post, h, ho, -⟩ := delivered_post
  obtain ⟨r, row, hins, -, -, hurl, hjson, -⟩ := (outbound_deliveries (Run.of_exec h)).2 p t _ post ho
  exact ⟨w, os, p, t, post, h, ho, r, row, hins, hurl, hjson⟩

end WebhookRelay
