import WebhookRelay.Rows

/-
  Idempotent intake. Requests with one key race through separate transactions:
  an INSERT that the unique constraint may refuse, then a lookup. What is
  proved of every run from an empty store:
    1. `idempotent_intake`: two requests with the same source and key report
       the same event, unless a cleanup deleted it between their deciding
       transactions; every reported event was inserted by one request, and no
       other request that reports it counts or enqueues anything;
    2. `quiet_step`: the steps of a replay change neither store nor process.
-/
namespace WebhookRelay

open Py Transition

/-- The request and the row of a deciding transaction: the committed INSERT or
the lookup that found the row. -/
def Obs.decides : Obs → Option (Nat × Event)
  | .inserted r row => some (r, row)
  | .replayed r row => some (r, row)
  | _ => none

theorem Obs.decides_request {o : Obs} {r : Nat} {row : Event} (h : o.decides = some (r, row)) :
    o.request = some r := by
  cases o <;> cases h <;> rfl

/-- The steps a replay consists of. -/
def Obs.quiet : Obs → Prop
  | .built _ _ | .conflict _ | .replayed _ _ => True
  | _ => False

/-- The requests that inserted the event, one entry for each INSERT. -/
def inserters (id : String) (os : List Obs) : List Nat :=
  os.filterMap (fun o =>
    match o with
    | .inserted r row => if row.id = id then some r else none
    | _ => none)

theorem mem_inserters {id : String} {os : List Obs} {r : Nat} :
    r ∈ inserters id os ↔ ∃ row, .inserted r row ∈ os ∧ row.id = id := by
  unfold inserters
  rw [List.mem_filterMap]
  constructor
  · intro h'
    obtain ⟨o, ho, hr⟩ := h'
    split at hr
    · next r' row =>
      split at hr
      · next hid =>
        cases hr
        exact ⟨row, ho, hid⟩
      · cases hr
    · cases hr
  · intro h'
    obtain ⟨row, ho, hid⟩ := h'
    exact ⟨_, ho, if_pos hid⟩

section

variable {env : Env} {w w' : World} {a : Act} {o : Obs} {as : List Act} {os : List Obs}

/-- A quiet step leaves the store and every process as they were. -/
theorem quiet_step (hs : step env w a = some (w', o)) (hq : o.quiet) :
    w'.store = w.store ∧ w'.procs = w.procs := by
  cases Move.of_step hs with
  | built | conflict | replayed => exact ⟨rfl, rfl⟩
  | started | stopped | closed | rejected | inserted | lostInsert | lostLookup | countedRelay | countedOnly
  | enqueued | refused | uninitialised | marked | began | beganLate | taken | worked | recorded
  | finished | dropped | idled | deleted => exact hq.elim

/-- The row decided on is stored when the step is done. -/
theorem decided_mem (hm : Move env w a w' o) {r : Nat} {row : Event}
    (hd : o.decides = some (r, row)) : row ∈ w'.store.rows := by
  cases hm with
  | inserted hh hs =>
    cases hd
    exact (Store.mem_insert hs).mpr (.inr rfl)
  | replayed hh hl =>
    cases hd
    exact (Store.lookup_eq_some.mp hl).1
  | started | stopped | closed | rejected | built | conflict | lostInsert | lostLookup | countedRelay
  | countedOnly | enqueued | refused | uninitialised | marked | began | beganLate | taken | worked
  | recorded | finished | dropped | idled | deleted => cases hd

/-- A deciding step finds no other row with the key of the row it decides on. -/
theorem decided_unique (hm : Move env w a w' o) {r : Nat} {row row' : Event}
    (hd : o.decides = some (r, row)) (hrow' : row' ∈ w.store.rows) (hkey : row'.sameKey row) :
    row' = row := by
  cases hm with
  | inserted hh hs =>
    cases hd
    exact absurd ⟨row', hrow', .inr hkey⟩ (Store.insert_rows hs).1
  | replayed hh hl =>
    cases hd
    exact Store.eq_of_key hrow' (Store.lookup_eq_some.mp hl).1 hkey
  | started | stopped | closed | rejected | built | conflict | lostInsert | lostLookup | countedRelay
  | countedOnly | enqueued | refused | uninitialised | marked | began | beganLate | taken | worked
  | recorded | finished | dropped | idled | deleted => cases hd

theorem Intake.FromRequest.row_receivedAt {i : Intake} (h : i.FromRequest env) :
    asUtc (i.row env).receivedAt = asUtc i.event.receivedAt := by
  obtain ⟨now, hnow⟩ := h.receivedAt
  have hrow : (i.row env).receivedAt = storedDatetime env.dropsTz i.event.receivedAt := rfl
  rw [hrow, hnow, asUtc, asUtc, storedDatetime_utc, Datetime.utc_ofUtc]

/-- What an answered request reports is the row of its deciding transaction. -/
theorem Shape.decision {r r' : Nat} {i : Intake} {resp : CreateWebhookResponse} {tr : List Obs}
    {row : Event} (hs : Shape env r (.answered i resp) tr) (hi : i.FromRequest env) (ho : o ∈ tr)
    (hd : o.decides = some (r', row)) :
    resp.eventId = row.id ∧ resp.receivedAt = asUtc row.receivedAt ∧ row.source = i.event.source ∧
      row.idempotencyKey = i.event.idempotencyKey := by
  have hinsert : ∀ resp : CreateWebhookResponse, resp.eventId = i.event.id →
      resp.receivedAt = asUtc i.event.receivedAt → o.decides = some (r, i.row env) →
      resp.eventId = row.id ∧ resp.receivedAt = asUtc row.receivedAt ∧
        row.source = i.event.source ∧ row.idempotencyKey = i.event.idempotencyKey := by
    intro resp hid hat hdec
    rw [hd] at hdec
    cases hdec
    exact ⟨hid, hat.trans hi.row_receivedAt.symm, rfl, rfl⟩
  cases hs with
  | replayed hsource hkey hne =>
    simp only [List.mem_cons, List.not_mem_nil, or_false] at ho
    rcases ho with rfl | rfl | rfl
    · cases hd
    · cases hd
    · cases hd
      exact ⟨rfl, rfl, hsource, hkey⟩
  | counted ht =>
    simp only [List.mem_cons, List.not_mem_nil, or_false] at ho
    rcases ho with rfl | rfl | rfl
    · cases hd
    · exact hinsert _ rfl rfl rfl
    · cases hd
  | enqueued ht hq =>
    simp only [List.mem_cons, List.not_mem_nil, or_false] at ho
    rcases ho with rfl | rfl | rfl | rfl
    · cases hd
    · exact hinsert _ rfl rfl rfl
    · cases hd
    · cases hd
  | marked ht hq =>
    simp only [List.mem_cons, List.not_mem_nil, or_false] at ho
    rcases ho with rfl | rfl | rfl | rfl | rfl
    · cases hd
    · exact hinsert _ rfl rfl rfl
    · cases hd
    · cases hd
    · cases hd

/-- An answered request built its event and had a deciding transaction; if that
was a lookup, all its steps were quiet. -/
theorem Shape.answered {r : Nat} {i : Intake} {resp : CreateWebhookResponse} {tr : List Obs}
    (hs : Shape env r (.answered i resp) tr) :
    .built r i ∈ tr ∧ ((.inserted r (i.row env) ∈ tr ∧ resp.eventId = i.event.id) ∨
      (∃ row, .replayed r row ∈ tr ∧ resp.eventId = row.id) ∧ ∀ o ∈ tr, o.quiet) := by
  cases hs with
  | @replayed _ row hsource hkey hne =>
    refine ⟨List.mem_cons_self, .inr ⟨⟨row, by simp, rfl⟩, ?_⟩⟩
    intro o ho
    simp only [List.mem_cons, List.not_mem_nil, or_false] at ho
    rcases ho with rfl | rfl | rfl <;> exact trivial
  | counted | enqueued | marked => exact ⟨List.mem_cons_self, .inl ⟨by simp, rfl⟩⟩

/-- No event is inserted twice. -/
theorem inserters_run (h : Run (step env) World.initial as os w) :
    ∀ id r, r ∈ inserters id os → inserters id os = [r] := by
  induction h with
  | nil =>
    intro id r hr
    cases hr
  | @snoc t t' as os a o h hs ih =>
    intro id r hr
    have hsnoc : inserters id (os ++ [o]) = inserters id os ++ inserters id [o] :=
      List.filterMap_append
    cases hcase : inserters id [o] with
    | nil =>
      rw [hsnoc, hcase, List.append_nil] at hr ⊢
      exact ih id r hr
    | cons r' rest =>
      obtain ⟨row, ho, hid⟩ : ∃ row, .inserted r' row ∈ [o] ∧ row.id = id :=
        mem_inserters.mp (hcase ▸ List.mem_cons_self)
      obtain rfl := List.mem_singleton.mp ho
      have hone : inserters id [Obs.inserted r' row] = [r'] := by
        simp [inserters, hid]
      have hnone : inserters id os = [] := by
        apply List.eq_nil_iff_forall_not_mem.mpr
        intro r'' hr''
        obtain ⟨row'', ho'', hid''⟩ := mem_inserters.mp hr''
        obtain ⟨i, hh, rfl, -⟩ := (Move.of_step hs).inserted_inv
        exact not_stored_inserting h hh r'' row'' ho'' (hid''.trans hid.symm)
      rw [hsnoc, hnone, hone] at hr ⊢
      rw [List.nil_append, List.mem_singleton] at hr
      rw [hr, List.nil_append]

/-- Two deciding transactions for one key, without a deletion of the row
between them, decide on the same event. -/
theorem decisions_agree {s₁ s₂ : List Obs} {m : List Obs} {o₁ o₂ : Obs} {r₁ r₂ : Nat}
    {row₁ row₂ : Event} (h : Run (step env) w as (s₁ ++ o₁ :: (m ++ o₂ :: s₂)) w')
    (hd₁ : o₁.decides = some (r₁, row₁)) (hd₂ : o₂.decides = some (r₂, row₂))
    (hkey : row₁.sameKey row₂) (hdel : ∀ ids, .deleted ids ∈ m → row₁.id ∉ ids) :
    row₁.toIntakeColumns = row₂.toIntakeColumns := by
  obtain ⟨al, a, ar, t, t₁, -, -, hs₁, hrest⟩ := h.cut
  obtain ⟨bl, b, br, t₂, t₃, -, hmid, hs₂, -⟩ := hrest.cut
  obtain ⟨row, hrow, hcols⟩ := row_kept hmid (decided_mem (Move.of_step hs₁) hd₁) hdel
  have hsame : row.sameKey row₂ := by
    have hsource : row.source = row₁.source := congrArg IntakeColumns.source hcols
    have hk : row.idempotencyKey = row₁.idempotencyKey := congrArg IntakeColumns.idempotencyKey hcols
    exact ⟨hk ▸ hkey.1, hsource.trans hkey.2.1, hk.trans hkey.2.2⟩
  rw [← hcols, decided_unique (Move.of_step hs₂) hd₂ hrow hsame]

/-- What an answer of a run reports was decided on in it. -/
theorem answered_decision (h : Run (step env) World.initial as os w) {r : Nat} {row : Event} {i : Intake}
    {resp : CreateWebhookResponse} (ho : o ∈ os) (hd : o.decides = some (r, row))
    (hw : w.handlers r = .answered i resp) :
    resp.eventId = row.id ∧ resp.receivedAt = asUtc row.receivedAt ∧ row.source = i.event.source ∧
      row.idempotencyKey = i.event.idempotencyKey := by
  have hshape := shape_run h r
  rw [hw] at hshape
  have hi := (fresh_run h).fromRequest r i (mem_trail.mp hshape.answered.1).1
  exact hshape.decision hi (mem_trail.mpr ⟨ho, Obs.decides_request hd⟩) hd

/-- **Idempotent intake.** In every state reached from an empty store by
requests of any number of processes, cleanups, workers and restarts, in any
order. -/
theorem idempotent_intake (h : Run (step env) World.initial as os w) :
    (∀ a ∈ w.store.rows, ∀ b ∈ w.store.rows, a.source = b.source →
      a.idempotencyKey = b.idempotencyKey → a.idempotencyKey ≠ none → a = b) ∧
    (∀ s₁ m s₂ o₁ o₂ r₁ r₂ row₁ row₂ i₁ i₂ resp₁ resp₂ key,
      os = s₁ ++ o₁ :: (m ++ o₂ :: s₂) →
      o₁.decides = some (r₁, row₁) → o₂.decides = some (r₂, row₂) →
      w.handlers r₁ = .answered i₁ resp₁ → w.handlers r₂ = .answered i₂ resp₂ →
      i₁.event.source = i₂.event.source →
      i₁.event.idempotencyKey = some key → i₂.event.idempotencyKey = some key → key ≠ "" →
      (∀ ids, .deleted ids ∈ m → row₁.id ∉ ids) →
      resp₁.eventId = resp₂.eventId ∧ resp₁.receivedAt = resp₂.receivedAt) ∧
    (∀ r i resp, w.handlers r = .answered i resp →
      ∃ r₀, inserters resp.eventId os = [r₀] ∧
        (r ≠ r₀ → ∀ o ∈ os, o.request = some r → o.quiet)) ∧
    (∀ t a t' o, step env t a = some (t', o) → o.quiet →
      t'.store = t.store ∧ t'.procs = t.procs) := by
  refine ⟨?_, ?_, ?_, fun t a t' o hs hq => quiet_step hs hq⟩
  · intro a ha b hb hsource hkey hne
    exact Store.eq_of_key ha hb ⟨hne, hsource, hkey⟩
  · intro s₁ m s₂ o₁ o₂ r₁ r₂ row₁ row₂ i₁ i₂ resp₁ resp₂ key hos hd₁ hd₂ hw₁ hw₂ hsource hk₁ hk₂ _ hdel
    obtain ⟨hid₁, hat₁, hs₁, hkey₁⟩ := answered_decision h (by rw [hos]; simp) hd₁ hw₁
    obtain ⟨hid₂, hat₂, hs₂, hkey₂⟩ := answered_decision h (by rw [hos]; simp) hd₂ hw₂
    have hsame : row₁.sameKey row₂ :=
      ⟨by rw [hkey₁, hk₁]; exact Option.some_ne_none key, by rw [hs₁, hs₂, hsource],
        by rw [hkey₁, hkey₂, hk₁, hk₂]⟩
    have hcols := decisions_agree (hos ▸ h) hd₁ hd₂ hsame hdel
    rw [hid₁, hid₂, hat₁, hat₂]
    exact ⟨congrArg IntakeColumns.id hcols, congrArg (fun c => asUtc c.receivedAt) hcols⟩
  · intro r i resp hw
    have hshape := shape_run h r
    rw [hw] at hshape
    obtain ⟨-, ⟨hins, hid⟩ | ⟨⟨row, hrep, hid⟩, hquiet⟩⟩ := hshape.answered
    · refine ⟨r, inserters_run h _ r ?_, fun hne => absurd rfl hne⟩
      exact mem_inserters.mpr ⟨_, (mem_trail.mp hins).1, hid.symm⟩
    · -- the row found by the lookup had been inserted before
      obtain ⟨l, n, hos⟩ := List.append_of_mem (mem_trail.mp hrep).1
      obtain ⟨al, a, ar, t, t', -, hl, hs, -⟩ := (hos ▸ h : Run _ _ _ _ _).cut
      have hrow := decided_mem (Move.of_step hs) rfl
      obtain ⟨r₀, row₀, hins₀, hcols⟩ := row_inserted (hl.snoc hs) row hrow
      refine ⟨r₀, inserters_run h _ r₀ ?_, fun _ o ho hr => hquiet o (mem_trail.mpr ⟨ho, hr⟩)⟩
      refine mem_inserters.mpr ⟨row₀, ?_, (congrArg IntakeColumns.id hcols).trans hid.symm⟩
      rw [hos, List.append_cons]
      exact List.mem_append_left _ hins₀

end

/-! ## A race -/

def zeroDigest : HexDigest where
  text := String.ofList (List.replicate 64 '0')
  length_eq := by
    rw [String.length_ofList, List.length_replicate]
  hexLower := by
    intro c hc
    rw [String.toList_ofList] at hc
    obtain rfl := List.eq_of_mem_replicate hc
    rfl

/-- One host name and two addresses, a target, one worker, and requests without
signature. -/
def sampleEnv : Env where
  settings := fun _ => {
    targetUrl := "http://hooks.test/in"
    webhookSecret := []
    maxBodyBytes := 1048576
    allowedSources := []
    relayAllowHosts := []
    relayAllowPrivateIps := false
    relayWorkerConcurrency := 1
    relayQueueSize := 1
    eventRetentionDays := none
    adminToken := [] }
  dropsTz := true
  hmacSha256 := fun _ _ => zeroDigest
  urlparse := fun url =>
    if url = "http://hooks.test/in" then .ok ("http", some "hooks.test") else .error (.valueError url)
  lower := fun s => s
  ipAddress := fun s =>
    if s = "93.184.216.34" then some {}
    else if s = "127.0.0.1" then some { isPrivate := true, isLoopback := true }
    else none
  json := {
    floatOf := fun ds => .finite (String.ofList ds)
    maxDepth := 1000
    maxDepth_pos := by decide
    maxDigits := 4300 }
  strOf := fun _ => []
  dumpsRoom := 950
  serializeRoom := 255
  serializeRoom_le := by decide

def sampleRequest (key : Option String) (body : String) : Request where
  source := "demo"
  rawBody := asciiBytes body.toList
  headers := match key with
    | none => [("x-request-id", "req-1")]
    | some k => [("x-request-id", "req-1"), ("idempotency-key", k)]

def sampleDraws (d now : Nat) : Draws where
  requestUuid := ⟨String.ofList (List.replicate 35 'a' ++ [digitChar d]), by
    rw [String.length_ofList, List.length_append, List.length_replicate]; rfl⟩
  eventUuid := ⟨String.ofList (List.replicate 35 'e' ++ [digitChar d]), by
    rw [String.length_ofList, List.length_append, List.length_replicate]; rfl⟩
  now := ⟨now % 1000, Nat.lt_trans (Nat.mod_lt now (by decide)) (by decide)⟩

/-- Two processes receive the same key with different bodies; the second loses
the race for the INSERT. -/
def raceActs : List Act :=
  [.startup 0, .startup 1, .request 0 1 (sampleRequest (some "k") "[[\"a\",1]]") (sampleDraws 1 10),
    .request 0 2 (sampleRequest (some "k") "\x7b\"a\":1\x7d") (sampleDraws 2 20),
    .request 1 3 (sampleRequest (some "k") "\x7b\"b\":2\x7d") (sampleDraws 3 30),
    .handler 2, .handler 3, .handler 2, .handler 3, .handler 2]

def Handler.response? : Handler → Option CreateWebhookResponse
  | .answered _ resp => some resp
  | _ => none

theorem Handler.response?_eq_some {h : Handler} {resp : CreateWebhookResponse}
    (hr : h.response? = some resp) : ∃ i, h = .answered i resp := by
  cases h with
  | answered i resp' =>
    cases hr
    exact ⟨i, rfl⟩
  | absent | rejected _ | active _ _ | failed _ _ => cases hr

/-- In the race, the request that lost reports an event inserted once. -/
theorem idempotent_intake_race :
    ∃ w os resp, exec (step sampleEnv) World.initial raceActs = some (w, os) ∧
      (w.handlers 3).response? = some resp ∧ ∃ r₀, inserters resp.eventId os = [r₀] := by
  have hrun : ((exec (step sampleEnv) World.initial raceActs).bind
      (fun r => (r.1.handlers 3).response?)).isSome = true := by
    decide +kernel
  obtain ⟨resp, hresp⟩ := Option.isSome_iff_exists.mp hrun
  obtain ⟨⟨w, os⟩, hexec, hw⟩ := Option.bind_eq_some_iff.mp hresp
  obtain ⟨i, hi⟩ := Handler.response?_eq_some hw
  obtain ⟨-, -, hreported, -⟩ := idempotent_intake (Run.of_exec hexec)
  obtain ⟨r₀, hone, -⟩ := hreported 3 i resp hi
  exact ⟨w, os, resp, hexec, hw, r₀, hone⟩

end WebhookRelay
