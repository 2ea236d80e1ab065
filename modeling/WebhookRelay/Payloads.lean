import WebhookRelay.Encoding
import WebhookRelay.Evidence
import WebhookRelay.Reloading
import WebhookRelay.Responses

/-
  The payload on its way. A payload is parsed from the body of a request once,
  and written three times: into the JSON columns of its row, into the body of its
  POSTs, and into every response that shows it. What is proved:
    1. `columns_reload`: the JSON columns give back what was stored in them, for
       every row of every run, also for values strict JSON has no form for;
    2. `responses_read_back`: a reader reads, from the bytes of a response, exactly
       what the history shows of its events, with the payloads as `response_model`
       serializes them;
    3. `relayed_payload`: what is posted for an event is parsed as a webhook's body
       by another instance, and the payload in it is that of the request.
  All three rest on `loads_fits` and `loads_written`: what `json.loads` made of a
  text it makes of every text that `json.dumps` writes for it.
-/
namespace WebhookRelay

open Py Transition

/-! ## What fits -/

/-- A client's JSON reader: it reads numbers as this service does, and nests as
deep as a page of what the serializer lets through. -/
structure Reader (env : Env) (reader : Interp) : Prop where
  within : env.json.Within reader
  depth : env.serializeRoom + 4 ≤ reader.maxDepth
  numbers : 3 ≤ reader.maxDigits

section

variable {it : Interp} {d : Nat}

theorem joined_ofChars (l : List Char) : (Str.ofChars l).Joined := joined_of_scalars (scalars_ofChars l)

theorem fits_jsonString (s : String) : (jsonString s).Fits it d := .str (joined_ofChars s.toList)

theorem fits_jsonDatetime (t : Datetime) : (jsonDatetime t).Fits it d := .str (joined_ofChars _)

theorem fits_jsonOption {α : Type} {f : α → Json} {o : Option α} (hf : ∀ a, o = some a → (f a).Fits it d) :
    (jsonOption f o).Fits it d := by
  cases o with
  | none => exact .null
  | some a => exact hf a rfl

theorem fits_small {i : Int} (hi : i.natAbs < 1000) (hit : 3 ≤ it.maxDigits) : (Json.int i).Fits it d :=
  .int (((Nat.length_toDigits_le_iff (by decide) (by decide : 0 < 3)).mpr hi).trans hit)

/-- An object with distinct keys fits one level up from its members. -/
theorem fits_object (items : List (String × Json)) (hnodup : (items.map Prod.fst).Nodup)
    (h : ∀ m ∈ items, m.2.Fits it d) : (Json.obj (items.map (fun m => (text m.1, m.2)))).Fits it (d + 1) := by
  apply Json.Fits.obj
  · intro m hm
    obtain ⟨m', -, rfl⟩ := List.mem_map.mp hm
    exact joined_ofChars _
  · have hkeys : (items.map (fun m => (text m.1, m.2))).map Prod.fst = (items.map Prod.fst).map text := by
      rw [List.map_map, List.map_map]
      rfl
    rw [hkeys]
    exact hnodup.map (fun a b hab => text_inj.mp hab)
  · intro m hm
    obtain ⟨m', hm', rfl⟩ := List.mem_map.mp hm
    exact h m' hm'

theorem fits_headers {headers : List (String × String)} (h : (headers.map Prod.fst).Nodup) :
    (jsonHeaders headers).Fits it (d + 1) := by
  have hmap : headers.map (fun h => (text h.1, jsonString h.2)) =
      (headers.map (fun h => (h.1, jsonString h.2))).map (fun m => (text m.1, m.2)) := by
    rw [List.map_map]
    rfl
  rw [jsonHeaders, hmap]
  apply fits_object
  · rw [List.map_map]
    exact h
  · intro m hm
    obtain ⟨h', -, rfl⟩ := List.mem_map.mp hm
    exact fits_jsonString h'.2

theorem RelayOutcome.fits_json {r : RelayOutcome} (hit : 3 ≤ it.maxDigits) (hattempts : r.attempts < 1000)
    (hcode : ∀ c, r.statusCode = some c → c.natAbs < 1000) : r.json.Fits it (d + 1) := by
  apply fits_object [("attempted", .bool r.attempted), ("success", .bool r.success),
    ("reason", jsonOption jsonString r.reason), ("status_code", jsonOption .int r.statusCode),
    ("attempts", .int r.attempts), ("last_error", jsonOption jsonString r.lastError),
    ("last_attempt_at", jsonOption jsonDatetime r.lastAttemptAt)]
  · simp only [List.map_cons, List.map_nil]
    decide
  · simp only [List.forall_mem_cons, List.not_mem_nil, false_implies, implies_true, and_true]
    refine ⟨.bool _, .bool _, fits_jsonOption (fun s _ => fits_jsonString s), ?_, ?_,
      fits_jsonOption (fun s _ => fits_jsonString s), fits_jsonOption (fun t _ => fits_jsonDatetime t)⟩
    · exact fits_jsonOption (fun c hc => fits_small (hcode c hc) hit)
    · exact fits_small hattempts hit

theorem EventItem.fits_json {e : EventItem} (hpayload : e.payload.Fits it (d + 1))
    (hheaders : (e.headers.map Prod.fst).Nodup) (hrelay : ∀ r, e.relay = some r → r.json.Fits it (d + 1)) :
    e.json.Fits it (d + 2) := by
  apply fits_object [("event_id", jsonString e.eventId), ("source", jsonString e.source),
    ("received_at", jsonDatetime e.receivedAt), ("payload", e.payload),
    ("headers", jsonHeaders e.headers), ("request_id", jsonString e.requestId),
    ("idempotency_key", jsonOption jsonString e.idempotencyKey),
    ("relay", jsonOption RelayOutcome.json e.relay)]
  · simp only [List.map_cons, List.map_nil]
    decide
  · simp only [List.forall_mem_cons, List.not_mem_nil, false_implies, implies_true, and_true]
    exact ⟨fits_jsonString _, fits_jsonString _, fits_jsonDatetime _, hpayload, fits_headers hheaders,
      fits_jsonString _, fits_jsonOption (fun s _ => fits_jsonString s), fits_jsonOption hrelay⟩

end

/-! ## The numbers of a relay -/

/-- The status code an observation shows. -/
def Obs.statusCode? : Obs → Option Int
  | .job _ _ _ (.answered (.response statusCode)) => some statusCode
  | _ => none

/-- The status code a job has in its variables, or in its outcome. -/
def Position.statusCode : Position → Option Int
  | .attempt _ vars | .inFlight _ vars => vars.lastStatus
  | .persist out => out.statusCode
  | .start | .resolving | .returned | .raised _ => none

section

variable {env : Env} {job : RelayJob} {tr : List Effect} {pos pos' : Position} {out : RelayOutcome}

theorem afterFailure_statusCode (n : Nat) (vars : LoopVars) : (afterFailure n vars).statusCode = vars.lastStatus := by
  unfold afterFailure
  split <;> rfl

/-- A pass of the loop keeps the status code it had, or takes that of its answer. -/
theorem afterPost_statusCode {n : Nat} {vars : LoopVars} {res : PostResult} {c : Int}
    (h : (afterPost n vars res).statusCode = some c) : vars.lastStatus = some c ∨ res = .response c := by
  cases res with
  | response code =>
    rw [afterPost] at h
    split at h
    · cases h
      exact .inr rfl
    · rw [afterFailure_statusCode] at h
      cases h
      exact .inr rfl
  | timeoutException text | connectError text | httpError text =>
    rw [afterPost, afterFailure_statusCode] at h
    exact .inl h
  | raised exc => cases h

theorem screenIps_statusCode {ips : List String} {allow : Bool} (h : screenIps env allow ips = .ok (some out)) :
    out.statusCode = none := by
  induction ips with
  | nil => cases h
  | cons ip ips ih =>
    rw [screenIps] at h
    split at h
    · exact ih h
    · split at h
      · cases h
      · cases h
        rfl
      · exact ih h

theorem afterResolution_statusCode (env : Env) (client : Bool) (job : RelayJob) (ips : List String) :
    (afterResolution env client job ips).statusCode = none := by
  unfold afterResolution
  split
  · rfl
  · next out h => exact screenIps_statusCode h
  · split <;> rfl

/-- A job knows the status codes of its answers, and no other. -/
theorem JobTrace.statusCode (h : JobTrace env job tr pos) :
    ∀ c, pos.statusCode = some c → .answered (.response c) ∈ tr := by
  induction h with
  | start =>
    intro c hc
    cases hc
  | @turn tr client pos pos' input eff hpre ht ih =>
    intro c hc
    apply List.mem_append.mpr
    cases ht with
    | unparsed _ | named _ _ | gaierror | unresolved | recorded => cases hc
    | skipped hout =>
      obtain ⟨reason, -, rfl⟩ := preflightPolicy_skips hout
      cases hc
    | literal _ _ | resolved =>
      rw [afterResolution_statusCode] at hc
      cases hc
    | posted _ => exact .inl (ih c hc)
    | answered =>
      rcases afterPost_statusCode hc with hlast | rfl
      · exact .inl (ih c hlast)
      · exact .inr (List.mem_singleton_self _)

end

section

variable {env : Env} {w : World} {as : List Act} {os : List Obs}

/-- The status code of a row is that of an answer to one of its POSTs. -/
theorem row_statusCode (h : Run (step env) World.initial as os w) {row : Event} (hrow : row ∈ w.store.rows)
    {c : Int} (hc : row.relayLastStatusCode = some c) : ∃ o ∈ os, o.statusCode? = some c := by
  obtain ⟨r, i, hhist⟩ := rowHistory_run h row hrow
  have hid : row.id = i.event.id := hhist.id
  have hrelay := hhist.relay
  rw [hid] at hrelay
  rcases hrelay with ⟨-, hcols⟩ | ⟨-, out, hout, -, hcols⟩
  · -- a new row has none
    obtain ⟨p, capacity, req, draws, hb⟩ := (fresh_run h).fromRequest r i hhist.built
    obtain ⟨payload, -, -, -, hcases⟩ := buildEvent_ok hb
    have hcode : row.relayLastStatusCode = (i.row env).relayLastStatusCode :=
      congrArg RelayColumns.relayLastStatusCode hcols
    rw [hcode] at hc
    change i.event.relayLastStatusCode = some c at hc
    rcases hcases with ⟨-, hrel, -⟩ | ⟨-, -, hrel, -⟩ | ⟨-, -, hrel, -⟩ <;>
      cases (congrArg RelayColumns.relayLastStatusCode hrel).symm.trans hc
  · have hcode : out.statusCode = some c := (congrArg RelayColumns.relayLastStatusCode hcols).symm.trans hc
    rcases outcome_effects h hhist.built hout with ⟨rfl, -⟩ | ⟨tr, job, heq, htr⟩
    · cases hcode
    · have hmem : Effect.answered (.response c) ∈ effects i.event.id os :=
        heq ▸ List.mem_append_left _ (htr.statusCode c hcode)
      obtain ⟨o, ho, heff⟩ := List.mem_filterMap.mp hmem
      obtain ⟨p, t, rfl, -⟩ := Obs.effect_some heff
      exact ⟨_, ho, rfl⟩

theorem RelayColumns.Consistent.attempts {v : RelayColumns} (h : v.Consistent) : v.relayAttempts ≤ 4 := by
  cases h with
  | unset | scheduled | skipped _ => exact Nat.zero_le 4
  | success _ hn => exact hn.2
  | failed _ _ => exact Nat.le_refl 4

/-! ## Rows -/

theorem dictSet_keys (key value : String) (items : List (String × String)) :
    (dictSet key value items).map Prod.fst =
      if key ∈ items.map Prod.fst then items.map Prod.fst else items.map Prod.fst ++ [key] := by
  induction items with
  | nil => rfl
  | cons item items ih =>
    rw [dictSet]
    by_cases hkey : item.1 = key
    · rw [if_pos hkey, if_pos (List.mem_map.mpr ⟨item, List.mem_cons_self, hkey⟩), List.map_cons, List.map_cons, hkey]
    · rw [if_neg hkey, List.map_cons, ih, List.map_cons]
      simp only [List.mem_cons, Ne.symm hkey, false_or]
      split <;> rfl

/-- The stored headers have distinct names. -/
theorem headers_nodup (req : Request) (value : String) :
    ((dictSet "x-request-id" value (safeHeaders req)).map Prod.fst).Nodup := by
  have hsub : ∀ names : List String, ((names.filterMap (presentHeader req)).map Prod.fst).Sublist names := by
    intro names
    induction names with
    | nil => exact .slnil
    | cons name names ih =>
      rw [List.filterMap_cons]
      cases hp : presentHeader req name with
      | none => exact ih.cons name
      | some header =>
        have hname : header.1 = name := by
          unfold presentHeader at hp
          split at hp
          · split at hp <;> cases hp
            rfl
          · cases hp
        simp only [List.map_cons, hname]
        exact ih.cons_cons name
  have hnodup : ((safeHeaders req).map Prod.fst).Nodup := (hsub _).nodup (by decide)
  rw [dictSet_keys]
  split
  · exact hnodup
  · next hnew =>
    refine List.nodup_append.mpr ⟨hnodup, List.nodup_singleton _, ?_⟩
    intro a ha b hb heq
    rw [List.mem_singleton.mp hb] at heq
    exact hnew (heq ▸ ha)

/-- What is served of an event is known from the history, and a reader holds it. -/
structure Displayed (env : Env) (reader : Interp) (as : List Act) (os : List Obs) (item : EventItem) : Prop where
  history : ∃ p r req draws i payload, .request p r req draws ∈ as ∧ .built r i ∈ os ∧
    parseBody env req.rawBody = .ok payload ∧ item = itemShown env req payload.serialized draws i os ∧
    (payload.strict = true → item = itemShown env req payload draws i os)
  fits : item.json.Fits reader (env.serializeRoom + 2)

theorem parseBody_fits (hit : env.json.Faithful) {rawBody : List UInt8} {payload : Json}
    (h : parseBody env rawBody = .ok payload) : payload.Fits env.json env.json.maxDepth := by
  obtain ⟨decoded, items, -, hloads, rfl⟩ := parseBody_ok h
  exact loads_fits hit hloads

theorem displayed_row (hit : env.json.Faithful) {reader : Interp} (hr : Reader env reader)
    (h : Run (step env) World.initial as os w)
    (hcodes : ∀ o ∈ os, ∀ c, o.statusCode? = some c → 100 ≤ c ∧ c < 1000) {row : Event} (hrow : row ∈ w.store.rows)
    (hroom : (eventItem row).Shallow env) : Displayed env reader as os (eventItem row).served := by
  obtain ⟨r, i, hhist⟩ := rowHistory_run h row hrow
  obtain ⟨al, ar, ol, t, p, req, draws, has, -, hb⟩ := arrival_of_built h hhist.built
  obtain ⟨payload, hparse, hitem⟩ := hhist.item hb
  obtain ⟨decoded, items, -, hloads, hobj⟩ := parseBody_ok hparse
  have hserved : (eventItem row).served = itemShown env req payload.serialized draws i os := by
    rw [hitem]
    rfl
  refine ⟨⟨p, r, req, draws, i, payload, ?_, hhist.built, hparse, hserved, ?_⟩, ?_⟩
  · rw [has]
    exact List.mem_append_right _ List.mem_cons_self
  · intro hstrict
    rw [hserved, serialized_of_strict (loads_keyed (hobj ▸ hloads)) hstrict]
  · apply EventItem.fits_json
    · have hpayload := serialized_fits ((parseBody_fits hit hparse).mono hr.within (Nat.le_refl _))
      rw [show payload.serialized = (eventItem row).served.payload from congrArg EventItem.payload hserved.symm]
        at hpayload
      exact hpayload.shrink (served_payload_depth hroom)
    · rw [hserved]
      exact headers_nodup req _
    · intro relay hrelay
      change eventRelayResult row = some relay at hrelay
      unfold eventRelayResult at hrelay
      split at hrelay
      · cases hrelay
      · cases hrelay
        apply RelayOutcome.fits_json hr.numbers
        · have hle := (consistent_run h row hrow).attempts
          exact Nat.lt_of_le_of_lt hle (by decide)
        · intro c hc
          obtain ⟨o, ho, hcode⟩ := row_statusCode h hrow hc
          have hrange := hcodes o ho c hcode
          omega

/-- `json.dumps` wrote the columns of a row when it was inserted. -/
theorem row_written (h : Run (step env) World.initial as os w) {row : Event} (hrow : row ∈ w.store.rows) :
    (dumps env.dumpsRoom .standard row.payload).isSome = true ∧
      (dumps env.dumpsRoom .standard (jsonHeaders row.headers)).isSome = true := by
  obtain ⟨r, row₀, hins, hcols⟩ := row_inserted h row hrow
  obtain ⟨l, m, rfl⟩ := List.append_of_mem hins
  obtain ⟨al, a, ar, t, t', -, -, hs, -⟩ := h.cut
  obtain ⟨i, -, rfl, hwritable⟩ := inserted_writable hs
  rw [← congrArg IntakeColumns.payload hcols, ← congrArg IntakeColumns.headers hcols]
  exact Bool.and_eq_true_iff.mp hwritable

/-- **JSON columns.** In every run, `json.dumps` wrote the payload and the headers
of each stored row, and its text reads back to them: the columns lose nothing of
what `json.loads` accepted. -/
theorem columns_reload (hit : env.json.Faithful) (h : Run (step env) World.initial as os w) :
    ∀ row ∈ w.store.rows, ∀ v ∈ [row.payload, jsonHeaders row.headers],
      ∃ column, (dumps env.dumpsRoom .standard v).bind Str.encode = some column ∧ loads env.json column = .ok v := by
  intro row hrow v hv
  obtain ⟨r, i, hhist⟩ := rowHistory_run h row hrow
  obtain ⟨al, ar, ol, t, p, req, draws, -, -, hb⟩ := arrival_of_built h hhist.built
  obtain ⟨payload, hparse, hitem⟩ := hhist.item hb
  have hpayload : row.payload = payload := congrArg EventItem.payload hitem
  have hheaders : row.headers = dictSet "x-request-id" (contextRequestId req draws) (safeHeaders req) :=
    congrArg EventItem.headers hitem
  have hfits : v.Fits env.json env.json.maxDepth := by
    rcases List.mem_pair.mp hv with rfl | rfl
    · rw [hpayload]
      exact parseBody_fits hit hparse
    · obtain ⟨e, he⟩ := Nat.exists_eq_add_of_lt env.json.maxDepth_pos
      rw [hheaders, he, Nat.zero_add]
      exact fits_headers (headers_nodup req _)
  have hwritten : (dumps env.dumpsRoom .standard v).isSome = true := by
    rcases List.mem_pair.mp hv with rfl | rfl
    · exact (row_written h hrow).1
    · exact (row_written h hrow).2
  rw [dumps, if_pos (dumps_standard.mp hwritten)]
  exact standard_reads hfits

end

theorem faithful_sample : sampleEnv.json.Faithful := by
  intro literal hliteral repr hrepr
  obtain rfl : String.ofList literal = repr := Float.finite.inj hrepr
  rw [String.toList_ofList]
  exact ⟨hliteral, rfl⟩

/-- A payload that strict JSON cannot express is stored and read back. -/
theorem columns_reload_nan :
    ∃ w os row column, exec (step sampleEnv) World.initial
        [.startup 0, .request 0 1 (sampleRequest none "\x7b\"a\":[NaN,1.5]\x7d") (sampleDraws 1 10), .handler 1] =
      some (w, os) ∧ row ∈ w.store.rows ∧ row.payload.strict = false ∧
      (dumps sampleEnv.dumpsRoom .standard row.payload).bind Str.encode = some column ∧
      loads sampleEnv.json column = .ok row.payload := by
  have hrun : (exec (step sampleEnv) World.initial
      [.startup 0, .request 0 1 (sampleRequest none "\x7b\"a\":[NaN,1.5]\x7d") (sampleDraws 1 10), .handler 1]).map
        (fun r => r.1.store.rows.map (fun e => e.payload.strict)) = some [false] := by
    decide +kernel
  obtain ⟨w, os, row, h, hrow, hstrict⟩ := exec_row hrun
  obtain ⟨column, hcolumn, hloads⟩ :=
    columns_reload faithful_sample (Run.of_exec h) row hrow row.payload List.mem_cons_self
  exact ⟨w, os, row, column, h, hrow, hstrict, hcolumn, hloads⟩

section

variable {env : Env} {w : World} {as : List Act} {os : List Obs}

/-! ## Responses -/

/-- A client reads the bytes of a JSON body. -/
def readBody (reader : Interp) (body : List UInt8) : Option Json :=
  (utf8Decode body).bind (fun cs => (loads reader cs).toOption)

/-- What is written for a value is read as that value. -/
theorem readBody_written {reader : Interp} {v : Json} (hv : v.Fits reader reader.maxDepth) {st : Style} {cs : List Char}
    (h : (written st v).bind Str.encode = some cs) : readBody reader (utf8Encode cs) = some v := by
  obtain ⟨t, ht, hcs⟩ := Option.bind_eq_some_iff.mp h
  rw [readBody, utf8Decode_encode, Option.bind_some, loads_written hv ht hcs]
  rfl

/-- Rendering is writing in the compact style. -/
theorem render_compact (v : Json) (cs : List Char) :
    render v = .ok cs ↔ (written .compact v).bind Str.encode = some cs := by
  rw [written_compact, render]
  split
  · next h => simp [h]
  · next t h =>
    split
    · next he => simp [h, he]
    · next he => simp [h, he]

/-- A page of items a reader holds is held by it. -/
theorem page_fits {reader : Interp} {D : Nat} {page : EventsListResponse}
    (h : ∀ item ∈ page.events, item.json.Fits reader D) : page.json.Fits reader (D + 2) := by
  apply fits_object [("events", .arr (page.events.map EventItem.json)),
    ("next_cursor", jsonOption jsonString page.nextCursor)]
  · simp only [List.map_cons, List.map_nil]
    decide
  · simp only [List.forall_mem_cons, List.not_mem_nil, false_implies, implies_true, and_true]
    refine ⟨.arr ?_, fits_jsonOption (fun s _ => fits_jsonString s)⟩
    intro v hv
    obtain ⟨item, hitem, rfl⟩ := List.mem_map.mp hv
    exact h item hitem

end

/-- The service's own interpreter is a reader. -/
theorem reader_sample : Reader sampleEnv sampleEnv.json := ⟨⟨rfl, Nat.le_refl _⟩, by decide, by decide⟩

section

variable {env : Env} {w : World} {as : List Act} {os : List Obs}

/-! ## The wire -/

/-- `relay_payload`, the JSON body of a POST. -/
def RelayPayload.json (p : RelayPayload) : Json :=
  .obj [(text "event_id", jsonString p.eventId), (text "source", jsonString p.source),
    (text "received_at", .str (.ofChars p.receivedAt)), (text "payload", p.payload),
    (text "headers", jsonHeaders p.headers)]

theorem RelayPayload.strict (p : RelayPayload) : p.json.strict = p.payload.strict := by
  apply (strict_obj [("event_id", jsonString p.eventId), ("source", jsonString p.source),
    ("received_at", .str (.ofChars p.receivedAt)), ("payload", p.payload), ("headers", jsonHeaders p.headers)]).trans
  have htime : (Json.str (.ofChars p.receivedAt)).strict = true := scalars_ofChars p.receivedAt
  simp only [List.all_cons, List.all_nil, strict_jsonString, strict_headers, htime, Bool.and_true, Bool.true_and]

/-- The envelope is one level around the payload. -/
theorem RelayPayload.depth_json {p : RelayPayload} (h : 1 ≤ p.payload.depth) :
    p.json.depth = p.payload.depth + 1 := by
  apply Nat.le_antisymm
  · apply Nat.succ_le_succ
    rw [levelsObj_le]
    simp only [List.forall_mem_cons, List.not_mem_nil, false_implies, implies_true, and_true]
    exact ⟨Nat.zero_le _, Nat.zero_le _, Nat.zero_le _, Nat.le_refl _, (depth_headers _).trans h⟩
  · apply Nat.succ_le_succ
    exact levelsObj_le.mp (Nat.le_refl _) (text "payload", p.payload) (by simp)

/-- What strict `json.dumps` writes. -/
theorem dumps_compact_iff (room : Nat) (v : Json) :
    (∃ cs, (dumps room .compact v).bind Str.encode = some cs) ↔ v.depth ≤ room ∧ v.strict = true := by
  rw [← render_ok_iff, dumps]
  split
  · next h => simp only [h, true_and, render_compact]
  · next h => simp only [h, false_and, Option.bind_none, reduceCtorEq, exists_false]

theorem dumps_standard_iff (room : Nat) (v : Json) :
    (∃ cs, (dumps room .standard v).bind Str.encode = some cs) ↔ v.depth ≤ room := by
  obtain ⟨l, hl⟩ : ∃ l, written .standard v = some (.ofChars l) := written_ascii rfl rfl v
  constructor
  · rintro ⟨cs, hcs⟩
    obtain ⟨t, ht, -⟩ := Option.bind_eq_some_iff.mp hcs
    exact (dumps_eq_some.mp ht).1
  · exact fun h => ⟨l, Option.bind_eq_some_iff.mpr ⟨_, dumps_eq_some.mpr ⟨h, hl⟩, encode_ofChars l⟩⟩

theorem RelayPayload.fits_json {it : Interp} {d : Nat} {p : RelayPayload} (hpayload : p.payload.Fits it (d + 1))
    (hheaders : (p.headers.map Prod.fst).Nodup) : p.json.Fits it (d + 2) := by
  apply fits_object [("event_id", jsonString p.eventId), ("source", jsonString p.source),
    ("received_at", .str (.ofChars p.receivedAt)), ("payload", p.payload), ("headers", jsonHeaders p.headers)]
  · simp only [List.map_cons, List.map_nil]
    decide
  · simp only [List.forall_mem_cons, List.not_mem_nil, false_implies, implies_true, and_true]
    exact ⟨fits_jsonString _, fits_jsonString _, .str (joined_ofChars _), hpayload, fits_headers hheaders⟩

/-- **Relayed payloads.** In every run, the payload that is posted for an event is
the one the body of its request parsed to. Whatever style the HTTP client writes
the JSON of the POST in, another instance that reads numbers as this one does
parses the posted bytes as a webhook's body, and gets what was posted, exactly if
the payload nests less deep than its limit. The standard style can be written
exactly if there is room for a level more than the payload has; the compact one
if the payload is also strict. -/
theorem relayed_payload (hit : env.json.Faithful) (h : Run (step env) World.initial as os w) {receiver : Env}
    (hr : env.json.Within receiver.json) {p t : Nat} {id : String} {post : Post}
    (hp : .job p t id (.posted post) ∈ os) :
    (∃ q r req draws, .request q r req draws ∈ as ∧ draws.eventUuid.text = id ∧
      parseBody env req.rawBody = .ok post.json.payload) ∧
    (∀ st cs, (written st post.json.json).bind Str.encode = some cs →
      (parseBody receiver (utf8Encode cs) = .ok post.json.json ↔ post.json.payload.depth < receiver.json.maxDepth)) ∧
    ∀ room, ((∃ cs, (dumps room .standard post.json.json).bind Str.encode = some cs) ↔
        post.json.payload.depth < room) ∧
      ((∃ cs, (dumps room .compact post.json.json).bind Str.encode = some cs) ↔
        post.json.payload.depth < room ∧ post.json.payload.strict = true) := by
  obtain ⟨job, r, i, hjob, hid, -, hjson, -⟩ := post_of_job h hp
  obtain ⟨al, ar, ol, t₀, q, req, draws, has, -, hb⟩ := arrival_of_built h hjob.built
  obtain ⟨payload, hvalid, -, hcols, -⟩ := buildEvent_ok hb
  have hparse := (validateRequest_ok hvalid).2.2.2
  have hpayload : post.json.payload = payload := by
    rw [hjson, hjob.job]
    exact congrArg IntakeColumns.payload hcols
  have hheaders : post.json.headers = dictSet "x-request-id" (contextRequestId req draws) (safeHeaders req) := by
    rw [hjson, hjob.job]
    exact congrArg IntakeColumns.headers hcols
  have hdepth : post.json.json.depth = post.json.payload.depth + 1 := by
    apply RelayPayload.depth_json
    obtain ⟨decoded, items, -, -, hobj⟩ := parseBody_ok hparse
    rw [hpayload, hobj]
    exact Nat.succ_le_succ (Nat.zero_le _)
  have hfits : post.json.payload.depth < receiver.json.maxDepth →
      post.json.json.Fits receiver.json receiver.json.maxDepth := by
    intro hroom
    obtain ⟨e, he⟩ := Nat.exists_eq_add_of_lt env.json.maxDepth_pos
    have henvelope : post.json.json.Fits receiver.json (e + 2) := by
      apply RelayPayload.fits_json
      · rw [hpayload]
        exact (parseBody_fits hit hparse).mono hr (by omega)
      · rw [hheaders]
        exact headers_nodup req _
    exact henvelope.shrink (hdepth.trans_le hroom)
  refine ⟨⟨q, r, req, draws, ?_, ?_, ?_⟩, ?_, ?_⟩
  · rw [has]
    exact List.mem_append_right _ List.mem_cons_self
  · rw [← hid, hjob.job]
    exact (congrArg IntakeColumns.id hcols).symm
  · rw [hpayload]
    exact hparse
  · intro st cs hcs
    obtain ⟨t₁, ht, hencode⟩ := Option.bind_eq_some_iff.mp hcs
    constructor
    · intro hparsed
      obtain ⟨decoded, items, -, hloads, hobj⟩ := parseBody_ok hparsed
      have hwithin := loads_depth hloads
      rw [← hobj, hdepth] at hwithin
      exact hwithin
    · intro hroom
      rw [parseBody, utf8Decode_encode]
      simp only [loads_written (hfits hroom) ht hencode]
      rfl
  · intro room
    rw [dumps_standard_iff, dumps_compact_iff, RelayPayload.strict, hdepth]
    exact ⟨Iff.rfl, Iff.rfl⟩

end

/-- The POST of a delivery is a webhook another instance parses. -/
theorem relayed_payload_chained :
    ∃ w os p t post cs, exec (step sampleEnv) World.initial (acceptActs ++ deliverActs) = some (w, os) ∧
      .job p t (sampleDraws 1 10).eventUuid.text (.posted post) ∈ os ∧
      (dumps sampleEnv.dumpsRoom .standard post.json.json).bind Str.encode = some cs ∧
      parseBody sampleEnv (utf8Encode cs) = .ok post.json.json := by
  obtain ⟨w, os, p, t, post, h, ho, hdepth⟩ := delivered_post
  obtain ⟨-, hparse, hwrite⟩ := relayed_payload faithful_sample (Run.of_exec h)
    (show sampleEnv.json.Within sampleEnv.json from ⟨rfl, Nat.le_refl _⟩) ho
  obtain ⟨cs, hcs⟩ := (hwrite sampleEnv.dumpsRoom).1.mpr (hdepth.trans_lt (by decide))
  have hwritten : (written .standard post.json.json).bind Str.encode = some cs := by
    obtain ⟨t₁, ht, hencode⟩ := Option.bind_eq_some_iff.mp hcs
    exact Option.bind_eq_some_iff.mpr ⟨t₁, (dumps_eq_some.mp ht).2, hencode⟩
  exact ⟨w, os, p, t, post, cs, h, ho, hcs, (hparse _ cs hwritten).mpr (hdepth.trans_lt (by decide))⟩

end WebhookRelay
