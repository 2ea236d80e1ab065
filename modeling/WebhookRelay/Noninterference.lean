import WebhookRelay.Authentication
import WebhookRelay.Reads

/-
  What clients cannot learn from each other. Two requests agree when they differ
  in headers that `create_event` has no use for, and in the signature as long as
  its check ends alike. Two runs of agreeing requests, with the same draws,
  answers and order, stay alike step by step (`step_alike`, lifted by
  `Run.lockstep`): tables and processes are equal, and everything shown is, up
  to the text that says what is wrong with a signature (`secrets_confined`).

  That text does differ: `unsigned_told_apart`.
-/
namespace WebhookRelay

open Py Transition

/-! ## Requests that agree -/

/-- How a check ends: it returns, raises a 401, or raises something else. -/
inductive Verdict where
  | returned
  | unauthorized
  | raised
  deriving DecidableEq

def verdict : Except PyExc Unit → Verdict
  | .ok _ => .returned
  | .error (.httpException 401 _) => .unauthorized
  | .error _ => .raised

/-- The signature check of a request in process `p`. -/
def signatureCheck (env : Env) (p : Nat) (req : Request) : Except PyExc Unit :=
  verifyWebhookSignature env req.rawBody (req.header "x-webhook-signature") (env.settings p).webhookSecret

/-- The headers `create_event` uses, apart from the signature. -/
def usedHeaders : List String := ["idempotency-key", "user-agent", "content-type", "x-request-id"]

/-- Two requests that process `p` treats alike; `V` is how their signature checks
compare. -/
structure Request.Agrees (env : Env) (V : Except PyExc Unit → Except PyExc Unit → Prop) (p : Nat)
    (req req' : Request) : Prop where
  source : req'.source = req.source
  rawBody : req'.rawBody = req.rawBody
  header : ∀ name ∈ usedHeaders, req'.header name = req.header name
  signature : V (signatureCheck env p req) (signatureCheck env p req')

/-- The details of a 401 of the signature check. -/
def signatureDetails : List String := ["Missing webhook signature", "Invalid webhook signature"]

/-- Two exceptions that differ at most in what they say of a signature. -/
inductive AlikeExc : PyExc → PyExc → Prop where
  | same (exc : PyExc) : AlikeExc exc exc
  | signature {detail detail' : String} (h : detail ∈ signatureDetails) (h' : detail' ∈ signatureDetails) :
      AlikeExc (.httpException 401 detail) (.httpException 401 detail')

/-- Two results of a check or a handler, with exceptions that compare by `E`. -/
inductive Ends {α : Type} (E : PyExc → PyExc → Prop) : Except PyExc α → Except PyExc α → Prop where
  | ok (a : α) : Ends E (.ok a) (.ok a)
  | error {exc exc' : PyExc} (h : E exc exc') : Ends E (.error exc) (.error exc')

section

variable {env : Env} {E : PyExc → PyExc → Prop}

theorem Ends.refl {α : Type} (hE : ∀ exc, E exc exc) (x : Except PyExc α) : Ends E x x := by
  cases x with
  | ok a => exact .ok a
  | error exc => exact .error (hE exc)

theorem Ends.bind {α β : Type} {x x' : Except PyExc α} (h : Ends E x x') {f f' : α → Except PyExc β}
    (hf : ∀ a, Ends E (f a) (f' a)) : Ends E (x >>= f) (x' >>= f') := by
  cases h with
  | ok a => exact hf a
  | error h => exact .error h

/-- What the signature check raises when it neither returns nor raises a 401. -/
def signatureFailure (secret : Str) : PyExc :=
  match secret.encode with
  | none => .unicodeEncodeError
  | some _ => .typeError "comparing strings with non-ASCII characters is not supported"

/-- The signature check returns, raises a 401, or fails for a reason that does not
depend on the signature. -/
theorem verify_cases (env : Env) (rawBody : List UInt8) (signatureHeader : Option String) (secret : Str) :
    let v := verifyWebhookSignature env rawBody signatureHeader secret
    v = .ok () ∨ (∃ detail ∈ signatureDetails, v = .error (.httpException 401 detail)) ∨
      v = .error (signatureFailure secret) := by
  intro v
  by_cases hs : secret = []
  · subst hs
    exact .inl verify_disabled
  by_cases hh : signatureHeader.getD "" = ""
  · exact .inr (.inl ⟨_, List.mem_cons_self, verify_missing hs hh⟩)
  cases signatureHeader with
  | none => exact absurd rfl hh
  | some signature =>
    cases hk : secret.encode with
    | none =>
      refine .inr (.inr ?_)
      rw [signatureFailure, hk]
      exact verify_unencodable hs hh hk
    | some key =>
      cases ha : isAscii (strip signature) with
      | false =>
        refine .inr (.inr ?_)
        rw [signatureFailure, hk]
        exact verify_nonAscii hs hh hk ha
      | true =>
        have hv : v = _ := verify_ascii hs hh hk ha
        by_cases hsame : strip signature = (env.hmacSha256 (String.ofList key) rawBody).text
        · rw [if_pos hsame] at hv
          exact .inl hv
        · rw [if_neg hsame] at hv
          exact .inr (.inl ⟨_, List.mem_cons_of_mem _ List.mem_cons_self, hv⟩)

/-- Signature checks with one verdict end alike. -/
theorem ends_of_verdict {p : Nat} {req req' : Request}
    (h : verdict (signatureCheck env p req) = verdict (signatureCheck env p req')) :
    Ends AlikeExc (signatureCheck env p req) (signatureCheck env p req') := by
  have hfailure : ∀ secret, verdict (.error (signatureFailure secret)) = .raised := by
    intro secret
    unfold signatureFailure
    cases secret.encode <;> rfl
  unfold signatureCheck at h ⊢
  rcases verify_cases env req.rawBody (req.header "x-webhook-signature") (env.settings p).webhookSecret with
    hv | ⟨detail, hd, hv⟩ | hv <;>
  rcases verify_cases env req'.rawBody (req'.header "x-webhook-signature") (env.settings p).webhookSecret with
    hv' | ⟨detail', hd', hv'⟩ | hv' <;>
  rw [hv, hv'] at h ⊢
  · exact .ok ()
  · cases h
  · rw [hfailure] at h
    cases h
  · cases h
  · exact .error (.signature hd hd')
  · rw [hfailure] at h
    cases h
  · rw [hfailure] at h
    cases h
  · rw [hfailure] at h
    cases h
  · exact .error (.same _)

section

variable {p : Nat} {req req' : Request}

theorem validateRequest_agrees (hE : ∀ exc, E exc exc) (h : req.Agrees env (Ends E) p req') :
    Ends E (validateRequest env (env.settings p) req) (validateRequest env (env.settings p) req') := by
  unfold validateRequest
  rw [h.source, h.rawBody]
  split
  · exact .error (hE _)
  · apply Ends.bind (.refl hE _)
    intro _
    refine Ends.bind ?_ (fun _ => .refl hE _)
    have hsignature := h.signature
    unfold signatureCheck at hsignature
    rw [h.rawBody] at hsignature
    exact hsignature

/-- What is stored of a request depends on the headers it uses. -/
theorem intakeColumns_agrees {V : Except PyExc Unit → Except PyExc Unit → Prop} (h : req.Agrees env V p req')
    (payload : Json) (draws : Draws) : intakeColumns req' payload draws = intakeColumns req payload draws := by
  have present : ∀ name ∈ usedHeaders, presentHeader req' name = presentHeader req name := by
    intro name hname
    unfold presentHeader
    rw [h.header name hname]
  have hid : contextRequestId req' draws = contextRequestId req draws := by
    unfold contextRequestId
    rw [present "x-request-id" (by decide)]
  have hsafe : safeHeaders req' = safeHeaders req := by
    apply List.filterMap_congr
    intro name hname
    apply present
    simp only [List.mem_cons, List.not_mem_nil, or_false] at hname
    rcases hname with rfl | rfl | rfl <;> decide
  unfold intakeColumns
  rw [h.source, hid, hsafe, h.header "idempotency-key" (by decide)]

theorem buildEvent_agrees (hE : ∀ exc, E exc exc) (h : req.Agrees env (Ends E) p req')
    (capacity : Except PyExc Bool) (draws : Draws) :
    Ends E (buildEvent env p capacity req draws) (buildEvent env p capacity req' draws) := by
  unfold buildEvent
  apply Ends.bind (validateRequest_agrees hE h)
  intro payload
  rw [intakeColumns_agrees h]
  exact .refl hE _

end

/-! ## Worlds that agree -/

inductive Handler.Alike (E : PyExc → PyExc → Prop) : Handler → Handler → Prop where
  | same (h : Handler) : Alike E h h
  | rejected {exc exc' : PyExc} (h : E exc exc') : Alike E (.rejected exc) (.rejected exc')

inductive Obs.Alike (E : PyExc → PyExc → Prop) : Obs → Obs → Prop where
  | same (o : Obs) : Alike E o o
  | rejected {r : Nat} {exc exc' : PyExc} (h : E exc exc') : Alike E (.rejected r exc) (.rejected r exc')

/-- Equal tables, processes and uuids, and handlers that differ at most in why
they rejected. -/
structure World.Alike (E : PyExc → PyExc → Prop) (w w' : World) : Prop where
  store : w'.store = w.store
  procs : w'.procs = w.procs
  issued : w'.issued = w.issued
  handlers : ∀ r, (w.handlers r).Alike E (w'.handlers r)

/-- Equal actions, or requests that agree. -/
inductive Act.Agrees (env : Env) (V : Except PyExc Unit → Except PyExc Unit → Prop) : Act → Act → Prop where
  | same (a : Act) (h : ∀ p r req draws, a ≠ .request p r req draws) : Agrees env V a a
  | request {p r : Nat} {req req' : Request} {draws : Draws} (h : req.Agrees env V p req') :
      Agrees env V (.request p r req draws) (.request p r req' draws)

/-- An action of create_event. -/
def Act.isIntake : Act → Bool
  | .request _ _ _ _ | .handler _ => true
  | _ => false

section

variable {w w' v v' : World} {a a' : Act} {o o' : Obs}

/-- Apart from `create_event` nothing looks at the handlers. -/
theorem step_handlers (h : Nat → Handler) (ha : a.isIntake = false) :
    step env { w with handlers := h } a = (step env w a).map (fun s => ({ s.1 with handlers := h }, s.2)) := by
  cases a with
  | startup p =>
    simp only [step]
    split <;> rfl
  | shutdown p =>
    simp only [step]
    split <;> rfl
  | closeClient p =>
    simp only [step]
    split <;> rfl
  | request | handler => cases ha
  | begin p t =>
    simp only [step, Option.map_map]
    rfl
  | take p t =>
    simp only [step, Option.map_map]
    rfl
  | work p t input =>
    simp only [step, stepJob]
    cases ((w.procs p).dispatcher.tasks t).state with
    | created | waiting _ | ended => rfl
    | running q job pos =>
      cases ((w.procs p).dispatcher.tasks t).cancelled with
      | true => rfl
      | false =>
        simp only
        cases advance env (w.procs p).client job pos input with
        | none => rfl
        | some next =>
          obtain ⟨pos', eff⟩ := next
          cases eff <;> rfl
  | finish p t =>
    simp only [step, stepFinish]
    cases ((w.procs p).dispatcher.tasks t).state with
    | created | waiting _ | ended => rfl
    | running q job pos =>
      cases ((w.procs p).dispatcher.tasks t).cancelled with
      | true => rfl
      | false =>
        simp only
        cases pos.ended? with
        | none => rfl
        | some e =>
          simp only [Option.map_map]
          rfl
  | cancelled p t =>
    simp only [step, stepCancelled]
    cases ((w.procs p).dispatcher.tasks t).state with
    | ended => rfl
    | created | waiting _ => cases ((w.procs p).dispatcher.tasks t).cancelled <;> rfl
    | running q job pos =>
      cases ((w.procs p).dispatcher.tasks t).cancelled with
      | true =>
        simp only [Option.map_map]
        rfl
      | false => rfl
  | cleanup cutoff => rfl

/-- A step of a handler is one of its own. -/
theorem stepHandler_handlers {r : Nat} (h : Nat → Handler) (hr : h r = w.handlers r) :
    stepHandler env { w with handlers := h } r = (stepHandler env w r).map (fun s =>
      ({ s.1 with handlers := Function.update h r (s.1.handlers r) }, s.2)) := by
  unfold stepHandler
  simp only [hr]
  cases w.handlers r with
  | absent | rejected _ | answered _ _ | failed _ _ => rfl
  | active i ph =>
    cases ph with
    | inserting =>
      simp only
      split
      · cases w.store.insert (i.row env) with
        | some s => simp [World.setHandler, World.setStore]
        | none =>
          simp only
          split <;> simp [World.setHandler]
      · simp [World.setHandler]
    | recovering =>
      simp only
      cases w.store.lookup i.event.source (i.event.idempotencyKey.getD "") <;> simp [World.setHandler]
    | counting =>
      simp only
      split <;> simp [World.setHandler, World.setProc]
    | enqueuing =>
      simp only
      cases (w.procs i.pid).dispatcher.enqueue (relayJob (env.settings i.pid) i.event) with
      | error exc => simp [World.setHandler]
      | ok r' =>
        obtain ⟨d, accepted⟩ := r'
        cases accepted <;> simp [World.setHandler, World.setProc]
    | marking => simp [World.setHandler, World.setStore]

theorem step_unseen (ha : a.isIntake = false) (hs : step env w a = some (v, o)) : v.handlers = w.handlers := by
  cases Move.of_step hs with
  | rejected | built | inserted | conflict | lostInsert | replayed | lostLookup | countedRelay | countedOnly
  | enqueued | refused | uninitialised | marked => cases ha
  | started | stopped | closed | began | beganLate | taken | worked | recorded | finished | dropped | idled
  | deleted => rfl

theorem stepHandler_others {r : Nat} (hs : stepHandler env w r = some (v, o)) {r' : Nat} (hne : r' ≠ r) :
    v.handlers r' = w.handlers r' := by
  cases Move.of_handler hs with
  | inserted | conflict | lostInsert | replayed | lostLookup | countedRelay | countedOnly | enqueued
  | refused | uninitialised | marked => exact Function.update_of_ne hne ..

/-- How a request arrives. -/
theorem step_request {p r : Nat} {req : Request} {draws : Draws}
    (hs : step env w (.request p r req draws) = some (v, o)) :
    ∃ h, v = { w with
        issued := draws.requestUuid :: draws.eventUuid :: w.issued
        handlers := Function.update w.handlers r h } ∧
      ((∃ i, buildEvent env p (w.procs p).dispatcher.hasCapacity req draws = .ok i ∧
          h = .active i .inserting ∧ o = .built r i) ∨
        ∃ exc, buildEvent env p (w.procs p).dispatcher.hasCapacity req draws = .error exc ∧
          h = .rejected exc ∧ o = .rejected r exc) := by
  simp only [step] at hs
  split at hs
  · split at hs
    · cases hs
    · split at hs
      · next i hb =>
        cases hs
        exact ⟨_, rfl, .inl ⟨i, hb, rfl, rfl⟩⟩
      · next exc hb =>
        cases hs
        exact ⟨_, rfl, .inr ⟨exc, hb, rfl, rfl⟩⟩
  · cases hs

theorem Handler.Alike.cases {h h' : Handler} (hh : h.Alike E h') : h' = h ∨ ∃ exc, h = .rejected exc := by
  cases hh with
  | same => exact .inl rfl
  | rejected => exact .inr ⟨_, rfl⟩

/-- A change of one handler, alike in both worlds. -/
theorem alike_update {f g : Nat → Handler} (hfg : ∀ r, (f r).Alike E (g r)) {r : Nat} {h h' : Handler}
    (hh : h.Alike E h') (r' : Nat) : (Function.update f r h r').Alike E (Function.update g r h' r') := by
  by_cases hr : r' = r
  · subst hr
    rw [Function.update_self, Function.update_self]
    exact hh
  · rw [Function.update_of_ne hr, Function.update_of_ne hr]
    exact hfg r'

/-- **Lockstep.** A step of each of two worlds that agree, by actions that agree,
leaves them alike and shows the same. -/
theorem step_alike (hE : ∀ exc, E exc exc) (hw : w.Alike E w') (ha : Act.Agrees env (Ends E) a a')
    (hs : step env w a = some (v, o)) (hs' : step env w' a' = some (v', o')) :
    v.Alike E v' ∧ o.Alike E o' := by
  have hw' : w' = { w with handlers := w'.handlers } := by
    obtain ⟨hstore, hprocs, hissued, -⟩ := hw
    obtain ⟨store, procs, handlers, issued⟩ := w'
    simp only at hstore hprocs hissued
    rw [hstore, hprocs, hissued]
  cases ha with
  | same a hno =>
    by_cases hin : a.isIntake = false
    · rw [hw', step_handlers _ hin, hs] at hs'
      cases hs'
      refine ⟨⟨rfl, rfl, rfl, ?_⟩, .same o⟩
      rw [step_unseen hin hs]
      exact hw.handlers
    · cases a with
      | handler r =>
        rcases (hw.handlers r).cases with hr | ⟨exc, hr⟩
        · rw [hw'] at hs'
          change stepHandler env _ r = _ at hs hs'
          rw [stepHandler_handlers _ hr, hs] at hs'
          cases hs'
          refine ⟨⟨rfl, rfl, rfl, ?_⟩, .same o⟩
          intro r'
          show (v.handlers r').Alike E (Function.update w'.handlers r (v.handlers r) r')
          by_cases hne : r' = r
          · subst hne
            rw [Function.update_self]
            exact .same _
          · rw [Function.update_of_ne hne, stepHandler_others hs hne]
            exact hw.handlers r'
        · simp [step, stepHandler, hr] at hs
      | request p r req draws => exact absurd rfl (hno p r req draws)
      | startup | shutdown | closeClient | begin | take | work | finish | cancelled | cleanup =>
        exact absurd rfl hin
  | @request p r req req' draws hreq =>
    obtain ⟨h, rfl, hcase⟩ := step_request hs
    obtain ⟨h', rfl, hcase'⟩ := step_request hs'
    rw [hw.procs] at hcase'
    have hbuild := buildEvent_agrees hE hreq (w.procs p).dispatcher.hasCapacity draws
    suffices hboth : h.Alike E h' ∧ o.Alike E o' by
      refine ⟨⟨hw.store, hw.procs, ?_, alike_update hw.handlers hboth.1⟩, hboth.2⟩
      exact congrArg (fun issued => draws.requestUuid :: draws.eventUuid :: issued) hw.issued
    rcases hcase with ⟨i, hb, rfl, rfl⟩ | ⟨exc, hb, rfl, rfl⟩ <;>
    rcases hcase' with ⟨i', hb', rfl, rfl⟩ | ⟨exc', hb', rfl, rfl⟩ <;>
    rw [hb, hb'] at hbuild <;> cases hbuild
    · exact ⟨.same _, .same _⟩
    · next hexc => exact ⟨.rejected hexc, .rejected hexc⟩

end

end

/-! ## Runs with readers -/

/-- A step of the service, or a read. -/
inductive Visit where
  | service (a : Act)
  | getEvent (eventId : String)
  | listEvents (limit : Nat) (cursor source : Option String)

/-- What a visit is shown: the observation, or the body of the response. -/
inductive Shown where
  | service (o : Obs)
  | response (r : Except PyExc (List Char))

def visit (env : Env) (coll : Collation) (w : World) : Visit → Option (World × Shown)
  | .service a => (step env w a).map (fun s => (s.1, .service s.2))
  | .getEvent eventId => some (w, .response (getEventResponse env w.store eventId))
  | .listEvents limit cursor source => some (w, .response (listEventsResponse env coll w.store limit cursor source))

/-- Equal visits, or requests that agree. -/
inductive Visit.Agrees (env : Env) (V : Except PyExc Unit → Except PyExc Unit → Prop) : Visit → Visit → Prop where
  | service {a a' : Act} (h : Act.Agrees env V a a') : Agrees env V (.service a) (.service a')
  | getEvent (eventId : String) : Agrees env V (.getEvent eventId) (.getEvent eventId)
  | listEvents (limit : Nat) (cursor source : Option String) :
      Agrees env V (.listEvents limit cursor source) (.listEvents limit cursor source)

inductive Shown.Alike (E : PyExc → PyExc → Prop) : Shown → Shown → Prop where
  | service {o o' : Obs} (h : o.Alike E o') : Alike E (.service o) (.service o')
  | response (r : Except PyExc (List Char)) : Alike E (.response r) (.response r)

section

variable {env : Env} {coll : Collation} {E : PyExc → PyExc → Prop} {w w' v v' : World} {a a' : Visit}
  {o o' : Shown} {as as' : List Visit} {os os' : List Shown}

theorem visit_alike (hE : ∀ exc, E exc exc) (hw : w.Alike E w') (ha : a.Agrees env (Ends E) a')
    (hs : visit env coll w a = some (v, o)) (hs' : visit env coll w' a' = some (v', o')) :
    v.Alike E v' ∧ o.Alike E o' := by
  cases ha with
  | service h =>
    obtain ⟨⟨u, x⟩, hu, hx⟩ := Option.map_eq_some_iff.mp hs
    obtain ⟨⟨u', x'⟩, hu', hx'⟩ := Option.map_eq_some_iff.mp hs'
    cases hx
    cases hx'
    obtain ⟨halike, hshown⟩ := step_alike hE hw h hu hu'
    exact ⟨halike, .service hshown⟩
  | getEvent eventId =>
    cases hs
    cases hs'
    rw [hw.store]
    exact ⟨hw, .response _⟩
  | listEvents limit cursor source =>
    cases hs
    cases hs'
    rw [hw.store]
    exact ⟨hw, .response _⟩

/-- Two runs of visits that agree stay alike. -/
theorem visits_alike (hE : ∀ exc, E exc exc) (hv : List.Forall₂ (Visit.Agrees env (Ends E)) as as')
    (h : Run (visit env coll) World.initial as os w) (h' : Run (visit env coll) World.initial as' os' w') :
    w.Alike E w' ∧ List.Forall₂ (Shown.Alike E) os os' := by
  have hinitial : World.initial.Alike E World.initial := ⟨rfl, rfl, rfl, fun r => .same _⟩
  refine Run.lockstep (R := World.Alike E) (O := Shown.Alike E) ?_ hv hinitial h h'
  exact fun _ _ _ _ _ _ _ _ hw ha hs hs' => visit_alike hE hw ha hs hs'

/-- Agreement carries over to another comparison of the signature checks. -/
theorem Visit.Agrees.imp {V V' : Except PyExc Unit → Except PyExc Unit → Prop}
    (hV : ∀ p req req', V (signatureCheck env p req) (signatureCheck env p req') →
      V' (signatureCheck env p req) (signatureCheck env p req')) (h : a.Agrees env V a') :
    a.Agrees env V' a' := by
  cases h with
  | service h =>
    cases h with
    | same _ hno => exact .service (.same _ hno)
    | request h => exact .service (.request ⟨h.source, h.rawBody, h.header, hV _ _ _ h.signature⟩)
  | getEvent eventId => exact .getEvent eventId
  | listEvents limit cursor source => exact .listEvents limit cursor source

theorem Handler.Alike.eq {h h' : Handler} (hh : h.Alike Eq h') : h' = h := by
  cases hh with
  | same => rfl
  | rejected hexc => rw [hexc]

theorem Shown.Alike.eq (h : o.Alike Eq o') : o = o' := by
  cases h with
  | response r => rfl
  | service ho =>
    cases ho with
    | same o => rfl
    | rejected hexc => rw [hexc]

/-- **Client secrets do not leak.** Two runs with the same draws, answers and
order, whose requests differ at most in headers that are not used and in the
signature, its check ending with the same verdict, have equal tables, processes
(with their queues, jobs and counters) and observations (with every POST and
its header), and every request is answered alike, up to what a 401 says of its
signature. When the checks end in the same text too, the runs are equal. -/
theorem secrets_confined (h : Run (visit env coll) World.initial as os w)
    (h' : Run (visit env coll) World.initial as' os' w') :
    (List.Forall₂ (Visit.Agrees env (fun x x' => verdict x = verdict x')) as as' →
      w'.store = w.store ∧ w'.procs = w.procs ∧ (∀ r, (w.handlers r).Alike AlikeExc (w'.handlers r)) ∧
        List.Forall₂ (Shown.Alike AlikeExc) os os') ∧
    (List.Forall₂ (Visit.Agrees env Eq) as as' →
      w'.store = w.store ∧ w'.procs = w.procs ∧ w'.handlers = w.handlers ∧ os = os') := by
  refine ⟨?_, ?_⟩
  · intro hv
    have hends : List.Forall₂ (Visit.Agrees env (Ends AlikeExc)) as as' :=
      hv.imp (fun _ _ ha => ha.imp (fun _ _ _ => ends_of_verdict))
    obtain ⟨halike, hshown⟩ := visits_alike AlikeExc.same hends h h'
    exact ⟨halike.store, halike.procs, halike.handlers, hshown⟩
  · intro hv
    have hends : List.Forall₂ (Visit.Agrees env (Ends Eq)) as as' := by
      refine hv.imp (fun _ _ ha => ha.imp ?_)
      intro p req req' heq
      rw [heq]
      exact .refl (fun _ => rfl) _
    obtain ⟨halike, hshown⟩ := visits_alike (fun _ => rfl) hends h h'
    refine ⟨halike.store, halike.procs, funext (fun r => (halike.handlers r).eq), ?_⟩
    exact List.forall₂_eq_eq_eq ▸ hshown.imp (fun _ _ ho => ho.eq)

end

/-! ## Two pairs of runs -/

/-- A request with credentials in headers that are not used. -/
def credentialRequest (credential : String) : Request where
  source := "demo"
  rawBody := asciiBytes "\x7b\"a\":1\x7d".toList
  headers := [("x-request-id", "req-1"), ("authorization", credential), ("cookie", credential)]

def credentialVisits (credential : String) : List Visit :=
  [.service (.startup 0), .service (.request 0 1 (credentialRequest credential) (sampleDraws 1 10)),
    .service (.handler 1), .service (.handler 1), .service (.handler 1),
    .getEvent (sampleDraws 1 10).eventUuid.text]

theorem credentials_agree (credential credential' : String) :
    List.Forall₂ (Visit.Agrees sampleEnv (fun x x' => verdict x = verdict x')) (credentialVisits credential)
      (credentialVisits credential') := by
  have hheader : ∀ name ∈ usedHeaders,
      (credentialRequest credential').header name = (credentialRequest credential).header name := by
    intro name hname
    simp only [usedHeaders, List.mem_cons, List.not_mem_nil, or_false] at hname
    rcases hname with rfl | rfl | rfl | rfl <;> rfl
  have hhandler : Visit.Agrees sampleEnv (fun x x' => verdict x = verdict x') (.service (.handler 1))
      (.service (.handler 1)) := .service (.same _ (fun _ _ _ _ h => by cases h))
  refine .cons (.service (.same _ (fun _ _ _ _ h => by cases h))) (.cons ?_
    (.cons hhandler (.cons hhandler (.cons hhandler (.cons (.getEvent _) .nil)))))
  exact .service (.request ⟨rfl, rfl, hheader, rfl⟩)

/-- The same event is stored and shown, whatever the credentials are. -/
theorem secrets_confined_credentials :
    ∃ w os w' os', exec (visit sampleEnv codePointOrder) World.initial (credentialVisits "Basic YTpi") =
        some (w, os) ∧
      exec (visit sampleEnv codePointOrder) World.initial (credentialVisits "Basic YTpj") = some (w', os') ∧
      w.store.rows.length = 1 ∧ w'.store = w.store ∧ List.Forall₂ (Shown.Alike AlikeExc) os os' := by
  have hrun : (exec (visit sampleEnv codePointOrder) World.initial (credentialVisits "Basic YTpi")).map
      (fun s => s.1.store.rows.length) = some 1 := by
    decide +kernel
  have hrun' : (exec (visit sampleEnv codePointOrder) World.initial (credentialVisits "Basic YTpj")).map
      (fun s => s.1.store.rows.length) = some 1 := by
    decide +kernel
  obtain ⟨⟨w, os⟩, h, hlen⟩ := Option.map_eq_some_iff.mp hrun
  obtain ⟨⟨w', os'⟩, h', -⟩ := Option.map_eq_some_iff.mp hrun'
  obtain ⟨hstore, -, -, hshown⟩ := (secrets_confined (Run.of_exec h) (Run.of_exec h')).1 (credentials_agree _ _)
  exact ⟨w, os, w', os', h, h', hlen, hstore, hshown⟩

/-- The processes check signatures under a secret. -/
def signedEnv : Env :=
  { sampleEnv with settings := fun p => { sampleEnv.settings p with webhookSecret := text "s" } }

def signatureRequest (signature : Option String) : Request where
  source := "demo"
  rawBody := []
  headers := (signature.map (fun s => ("x-webhook-signature", s))).toList

def signatureVisits (signature : Option String) : List Visit :=
  [.service (.request 0 1 (signatureRequest signature) (sampleDraws 1 10))]

/-- Why a request was rejected. -/
def Handler.rejection? : Handler → Option PyExc
  | .rejected exc => some exc
  | _ => none

/-- A request without a signature and one with a wrong one both end in a 401, and
are answered differently. -/
theorem unsigned_told_apart :
    ∃ w os w' os', exec (visit signedEnv codePointOrder) World.initial (signatureVisits none) = some (w, os) ∧
      exec (visit signedEnv codePointOrder) World.initial (signatureVisits (some "0")) = some (w', os') ∧
      List.Forall₂ (Visit.Agrees signedEnv (fun x x' => verdict x = verdict x')) (signatureVisits none)
        (signatureVisits (some "0")) ∧
      (w.handlers 1).rejection? = some (.httpException 401 "Missing webhook signature") ∧
      (w'.handlers 1).rejection? = some (.httpException 401 "Invalid webhook signature") := by
  have hrun : (exec (visit signedEnv codePointOrder) World.initial (signatureVisits none)).map
      (fun s => (s.1.handlers 1).rejection?) = some (some (.httpException 401 "Missing webhook signature")) := by
    decide +kernel
  have hrun' : (exec (visit signedEnv codePointOrder) World.initial (signatureVisits (some "0"))).map
      (fun s => (s.1.handlers 1).rejection?) = some (some (.httpException 401 "Invalid webhook signature")) := by
    decide +kernel
  obtain ⟨⟨w, os⟩, h, hmissing⟩ := Option.map_eq_some_iff.mp hrun
  obtain ⟨⟨w', os'⟩, h', hinvalid⟩ := Option.map_eq_some_iff.mp hrun'
  have hheader : ∀ name ∈ usedHeaders,
      (signatureRequest (some "0")).header name = (signatureRequest none).header name := by
    intro name hname
    simp only [usedHeaders, List.mem_cons, List.not_mem_nil, or_false] at hname
    rcases hname with rfl | rfl | rfl | rfl <;> rfl
  have hverdict : verdict (signatureCheck signedEnv 0 (signatureRequest none)) =
      verdict (signatureCheck signedEnv 0 (signatureRequest (some "0"))) := by
    decide +kernel
  exact ⟨w, os, w', os', h, h', .cons (.service (.request ⟨rfl, rfl, hheader, hverdict⟩)) .nil, hmissing,
    hinvalid⟩

end WebhookRelay
