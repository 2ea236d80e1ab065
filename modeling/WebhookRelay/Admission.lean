import WebhookRelay.Acceptance
import WebhookRelay.Cleanup

/-
  Which requests have effects. `Admitted` says that a request is past the
  source, size and signature checks; what is left is the body. Proved of every
  request, from any state, whatever the other parties do meanwhile:
    1. `malformed_body_refused`: a body that is no JSON object is answered 422
       exactly when it decodes and the parser raises nothing but
       JSONDecodeError, the one exception `create_event` catches;
    2. `only_admitted_effects`: a handler that changes the table, a queue or a
       counter belongs to an admitted request with a JSON object, and a handler
       that does not end in a 200 has changed none of them.
-/
namespace WebhookRelay

open Py Transition

/-- The request is past the source, size and signature checks. -/
structure Admitted (env : Env) (settings : Settings) (req : Request) : Prop where
  source : settings.allowedSources = [] ∨ req.source ∈ settings.allowedSources
  size : (req.rawBody.length : Int) ≤ settings.maxBodyBytes
  signature : settings.webhookSecret = [] ∨
    SignedBy env req.rawBody (req.header "x-webhook-signature") settings.webhookSecret

/-- The bytes are the UTF-8 encoding of a JSON object. -/
def JsonObjectBody (env : Env) (rawBody : List UInt8) : Prop :=
  ∃ decoded items, utf8Decode rawBody = some decoded ∧ loads env.json decoded = .ok (.obj items)

section

variable {env : Env} {settings : Settings} {req : Request} {payload : Json}

/-- An admitted request is checked no further than its body. -/
theorem Admitted.validate (h : Admitted env settings req) :
    validateRequest env settings req = parseBody env req.rawBody := by
  have hsource : ¬ (settings.allowedSources ≠ [] ∧ req.source ∉ settings.allowedSources) :=
    fun hs => h.source.elim hs.1 hs.2
  have hsize : ¬ settings.maxBodyBytes < req.rawBody.length := Int.not_lt.mpr h.size
  rw [validateRequest, if_neg hsource, enforceBodySizeLimit, if_neg hsize, verify_ok_iff.mpr h.signature]
  rfl

/-- Only admitted requests get as far as the body. -/
theorem admitted_of_valid (h : validateRequest env settings req = .ok payload) :
    Admitted env settings req := by
  obtain ⟨hsource, hsize, hsig, -⟩ := validateRequest_ok h
  exact ⟨hsource, hsize, verify_ok_iff.mp hsig⟩

/-! ## Malformed bodies -/

/-- Whenever the request arrives, it is answered 422, and neither the table nor
a process changes. -/
def Answers422 (env : Env) (p : Nat) (req : Request) : Prop :=
  ∀ w r draws, w.handlers r = .absent →
    (draws.requestUuid ∉ w.issued ∧ draws.eventUuid ∉ w.issued ∧ draws.requestUuid ≠ draws.eventUuid) →
    ∃ detail w', step env w (.request p r req draws) =
        some (w', .rejected r (.httpException 422 detail)) ∧
      w'.store = w.store ∧ w'.procs = w.procs

/-- A body that is no JSON object is answered 422, and no body makes the checks
raise anything but an HTTPException. -/
def BodyRefused (env : Env) (p : Nat) (req : Request) : Prop :=
  (¬ JsonObjectBody env req.rawBody → Answers422 env p req) ∧
    ∀ exc, validateRequest env (env.settings p) req = .error exc →
      ∃ status detail, exc = .httpException status detail

/-- A request whose checks raise a 422 is answered with it. -/
theorem answers422 {p : Nat} {detail : String}
    (h : validateRequest env (env.settings p) req = .error (.httpException 422 detail)) :
    Answers422 env p req := by
  intro w r draws ha ⟨hr, he, hne⟩
  have hb : buildEvent env p (w.procs p).dispatcher.hasCapacity req draws =
      .error (.httpException 422 detail) := by
    rw [buildEvent, h]
    rfl
  have hfresh : ¬ (draws.requestUuid ∈ w.issued ∨ draws.eventUuid ∈ w.issued ∨
      draws.requestUuid = draws.eventUuid) := by
    rintro (h | h | h)
    · exact hr h
    · exact he h
    · exact hne h
  refine ⟨detail, ({ w with issued := draws.requestUuid :: draws.eventUuid :: w.issued }).setHandler r
    (.rejected (.httpException 422 detail)), ?_, rfl, rfl⟩
  simp only [step, ha, if_neg hfresh, hb]

/-- **Malformed bodies.** An admitted request is answered 422 for every body that
is no JSON object, and its body raises nothing but HTTPException, exactly when
the body decodes and the parser meets neither its nesting limit nor its limit
for integers. -/
theorem malformed_body_refused {p : Nat} (h : Admitted env (env.settings p) req) :
    BodyRefused env p req ↔ ∃ decoded, utf8Decode req.rawBody = some decoded ∧
      loads env.json decoded ≠ .error .recursionError ∧ loads env.json decoded ≠ .error .valueError := by
  have hvalid := h.validate
  -- an exception that is no HTTPException falsifies the second half
  have raises : ∀ exc, parseBody env req.rawBody = .error exc →
      (∀ status detail, exc ≠ .httpException status detail) → ¬ BodyRefused env p req := by
    rintro exc hp hexc ⟨-, hall⟩
    obtain ⟨status, detail, heq⟩ := hall exc (hvalid.trans hp)
    exact hexc status detail heq
  have refuses : ∀ detail, parseBody env req.rawBody = .error (.httpException 422 detail) →
      BodyRefused env p req := by
    intro detail hp
    refine ⟨fun _ => answers422 (hvalid.trans hp), ?_⟩
    intro exc hexc
    rw [hvalid, hp] at hexc
    cases hexc
    exact ⟨422, detail, rfl⟩
  cases hd : utf8Decode req.rawBody with
  | none =>
    apply iff_of_false (raises .unicodeDecodeError (by rw [parseBody, hd]) (fun _ _ => nofun))
    intro h'
    obtain ⟨decoded, hsome, -⟩ := h'
    cases hsome
  | some decoded =>
    have hiff : (∃ decoded', some decoded = some decoded' ∧
        loads env.json decoded' ≠ .error .recursionError ∧ loads env.json decoded' ≠ .error .valueError) ↔
        loads env.json decoded ≠ .error .recursionError ∧ loads env.json decoded ≠ .error .valueError := by
      constructor
      · intro h'
        obtain ⟨decoded', hsame, hne⟩ := h'
        cases hsame
        exact hne
      · intro hne
        exact ⟨decoded, rfl, hne⟩
    rw [hiff]
    cases hl : loads env.json decoded with
    | error exc =>
      cases exc with
      | jsonDecodeError =>
        exact iff_of_true (refuses "Invalid JSON body" (by simp only [parseBody, hd, hl])) ⟨nofun, nofun⟩
      | valueError =>
        refine iff_of_false (raises (.valueError "Exceeds the limit for integer string conversion")
          (by simp only [parseBody, hd, hl]) (fun _ _ => nofun)) (fun hne => hne.2 rfl)
      | recursionError =>
        refine iff_of_false (raises .recursionError (by simp only [parseBody, hd, hl])
          (fun _ _ => nofun)) (fun hne => hne.1 rfl)
    | ok v =>
      refine iff_of_true ?_ ⟨nofun, nofun⟩
      cases v with
      | obj items =>
        refine ⟨fun hno => absurd ⟨decoded, items, hd, hl⟩ hno, ?_⟩
        intro exc hexc
        have hp : parseBody env req.rawBody = .ok (.obj items) := by simp only [parseBody, hd, hl]
        rw [hvalid, hp] at hexc
        cases hexc
      | null | bool _ | int _ | float _ | str _ | arr _ =>
        exact refuses "Payload must be a JSON object" (by simp only [parseBody, hd, hl])

end

/-- A body of one byte that starts no UTF-8 character. -/
def undecodableRequest : Request where
  source := "demo"
  rawBody := [0xFF]
  headers := []

theorem undecodableRequest_admitted :
    Admitted sampleEnv (sampleEnv.settings 0) undecodableRequest :=
  ⟨.inl rfl, by decide, .inl rfl⟩

/-- The byte 0xFF passes the checks and raises UnicodeDecodeError. -/
theorem undecodable_body_raises :
    Admitted sampleEnv (sampleEnv.settings 0) undecodableRequest ∧
      ¬ BodyRefused sampleEnv 0 undecodableRequest := by
  refine ⟨undecodableRequest_admitted, ?_⟩
  intro h'
  obtain ⟨-, hall⟩ := h'
  obtain ⟨status, detail, h⟩ := hall .unicodeDecodeError undecodableRequest_admitted.validate
  cases h

/-- A list as a body is refused as it should. -/
theorem malformed_body_refused_list :
    BodyRefused sampleEnv 0 { undecodableRequest with rawBody := [0x5B, 0x5D] } := by
  refine (malformed_body_refused ⟨.inl rfl, by decide, .inl rfl⟩).mpr ⟨['[', ']'], by decide, ?_⟩
  have h : ∀ v, loads sampleEnv.json ['[', ']'] = .ok v → loads sampleEnv.json ['[', ']'] ≠
      .error .recursionError ∧ loads sampleEnv.json ['[', ']'] ≠ .error .valueError := by
    intro v hv
    rw [hv]
    exact ⟨nofun, nofun⟩
  exact h (.arr []) rfl

/-! ## Effects -/

/-- The request was refused or its handler failed: its answer is no 200. -/
def Handler.declined : Handler → Prop
  | .rejected _ | .failed _ _ => True
  | _ => False

instance (h : Handler) : Decidable h.declined :=
  match h with
  | .rejected _ | .failed _ _ => .isTrue trivial
  | .absent | .active _ _ | .answered _ _ => .isFalse id

/-- The handler has committed its event, or has answered. -/
def Handler.committed : Handler → Prop
  | .active _ .counting | .active _ .enqueuing | .active _ .marking | .answered _ _ => True
  | _ => False

/-- A request of process `p` is under way: with a target, the dispatcher it
asked for capacity is still there. -/
structure UnderWay (env : Env) (p r : Nat) (w : World) : Prop where
  present : w.handlers r ≠ .absent
  pid : ∀ i ph, w.handlers r = .active i ph → i.pid = p
  target : ∀ i, w.handlers r = .active i .enqueuing → (env.settings p).targetUrl ≠ ""
  queue : (∃ i ph, w.handlers r = .active i ph) → (env.settings p).targetUrl ≠ "" →
    (w.procs p).dispatcher.dispatchQueue.isSome

section

variable {env : Env} {w w₀ w₁ w' : World} {a : Act} {o o₁ : Obs} {as : List Act} {os : List Obs}
  {p r : Nat} {req : Request} {draws : Draws}

/-- A handler that goes on keeps its intake, and gets to the dispatcher only
with a target. -/
theorem Move.handler_next (hm : Move env w (.handler r) w' o) :
    w'.handlers r ≠ .absent ∧ ∃ i ph, w.handlers r = .active i ph ∧
      ∀ j ph', w'.handlers r = .active j ph' →
        j = i ∧ (ph' = .enqueuing → (env.settings i.pid).targetUrl ≠ "") := by
  have self : ∀ h, Function.update w.handlers r h r = h := fun h => Function.update_self ..
  cases hm with
  | inserted hh | conflict hh | refused hh =>
    refine ⟨fun hj => (nomatch (self _).symm.trans hj), _, _, hh, fun j ph' hj => ?_⟩
    cases (self _).symm.trans hj
    exact ⟨rfl, nofun⟩
  | countedRelay hh ht =>
    refine ⟨fun hj => (nomatch (self _).symm.trans hj), _, _, hh, fun j ph' hj => ?_⟩
    cases (self _).symm.trans hj
    exact ⟨rfl, fun _ => ht⟩
  | lostInsert hh | replayed hh | lostLookup hh | countedOnly hh | enqueued hh | uninitialised hh
  | marked hh =>
    refine ⟨fun hj => (nomatch (self _).symm.trans hj), _, _, hh, fun j ph' hj => ?_⟩
    cases (self _).symm.trans hj

theorem underWay_step (hu : UnderWay env p r w) (ha : a ≠ .shutdown p) (hm : Move env w a w' o) :
    UnderWay env p r w' := by
  by_cases hself : a = .handler r
  · subst hself
    obtain ⟨hpresent, i, ph, hh, hnext⟩ := hm.handler_next
    refine ⟨hpresent, ?_, ?_, ?_⟩
    · intro j ph' hj
      rw [(hnext j ph' hj).1]
      exact hu.pid i ph hh
    · intro j hj
      rw [← hu.pid i ph hh]
      exact (hnext j _ hj).2 rfl
    · exact fun _ htarget => hm.queue_stays ha (hu.queue ⟨i, ph, hh⟩ htarget)
  · have hother := hm.handler_other hu.present hself
    refine ⟨?_, ?_, ?_, ?_⟩
    · rw [hother]
      exact hu.present
    · rw [hother]
      exact hu.pid
    · rw [hother]
      exact hu.target
    · rw [hother]
      exact fun hactive htarget => hm.queue_stays ha (hu.queue hactive htarget)

/-- A request that arrived is refused, or it is admitted, has a JSON object as
its body, and is under way; neither the table nor a process has changed. -/
theorem request_arrives (hs : step env w (.request p r req draws) = some (w', o)) :
    w'.store = w.store ∧ w'.procs = w.procs ∧
      ((∃ exc, w'.handlers r = .rejected exc) ∨
        (Admitted env (env.settings p) req ∧ JsonObjectBody env req.rawBody ∧
          (∃ i, w'.handlers r = .active i .inserting) ∧ UnderWay env p r w')) := by
  have hm := Move.of_step hs
  cases hm with
  | rejected ha => exact ⟨rfl, rfl, .inl ⟨_, Function.update_self ..⟩⟩
  | @built p r req draws i ha _ hb =>
    obtain ⟨payload, hvalid, hpid, -, hrelay⟩ := buildEvent_ok hb
    have hadmitted := admitted_of_valid hvalid
    have hself : Function.update w.handlers r (.active i .inserting) r = .active i .inserting :=
      Function.update_self ..
    obtain ⟨decoded, items, hd, hl, -⟩ := parseBody_ok (hadmitted.validate.symm.trans hvalid)
    refine ⟨rfl, rfl, .inr ⟨hadmitted, ⟨decoded, items, hd, hl⟩, ⟨i, hself⟩, ?_⟩⟩
    refine ⟨fun hj => (nomatch hself.symm.trans hj), ?_, ?_, ?_⟩
    · intro j ph hj
      cases hself.symm.trans hj
      exact hpid
    · intro j hj
      cases hself.symm.trans hj
    · intro _ htarget
      -- a dispatcher that was asked for its capacity is initialised
      have hcap : ∃ b, (w.procs p).dispatcher.hasCapacity = .ok b := by
        rcases hrelay with ⟨ht, -⟩ | ⟨-, hc, -⟩ | ⟨-, hc, -⟩
        · exact absurd ht htarget
        · exact ⟨true, hc⟩
        · exact ⟨false, hc⟩
      obtain ⟨b, hb⟩ := hcap
      unfold Dispatcher.hasCapacity at hb
      split at hb
      · cases hb
      · next q hq => exact Option.isSome_iff_exists.mpr ⟨q, hq⟩

/-- A step of a handler that changes the table or a process commits its event. -/
theorem Move.commits (hm : Move env w (.handler r) w' o)
    (hch : w'.store ≠ w.store ∨ w'.procs ≠ w.procs) : (w'.handlers r).committed := by
  have self : ∀ h : Handler, h.committed → (Function.update w.handlers r h r).committed := by
    intro h hc
    rwa [Function.update_self]
  cases hm with
  | inserted | countedRelay | countedOnly | enqueued | marked => exact self _ trivial
  | refused | replayed => exact self _ trivial
  | conflict | lostInsert | lostLookup | uninitialised => exact (hch.elim (· rfl) (· rfl)).elim

/-- A committed handler stays so: what could make it fail is a dispatcher that
is gone. -/
theorem committed_step (hc : (w.handlers r).committed) (hu : UnderWay env p r w)
    (ha : a ≠ .shutdown p) (hm : Move env w a w' o) : (w'.handlers r).committed := by
  by_cases hself : a = .handler r
  · subst hself
    have self : ∀ h : Handler, h.committed → (Function.update w.handlers r h r).committed := by
      intro h hc
      rwa [Function.update_self]
    cases hm with
    | inserted hh | conflict hh | lostInsert hh | replayed hh | lostLookup hh =>
      rw [hh] at hc
      exact hc.elim
    | countedRelay | countedOnly | enqueued | refused | marked => exact self _ trivial
    | @uninitialised _ i _ hh hq =>
      obtain rfl := hu.pid i _ hh
      have hsome := hu.queue ⟨i, _, hh⟩ (hu.target i hh)
      rw [hq] at hsome
      cases hsome
  · rw [hm.handler_other hu.present hself]
    exact hc

/-- The rule for runs without a shutdown of the process. -/
theorem underWay_run {I : World → Prop} (h : Run (step env) w as os w') (hu : UnderWay env p r w)
    (ha : .shutdown p ∉ as) (h0 : I w)
    (hstep : ∀ t a t' o, a ∈ as → UnderWay env p r t → I t → step env t a = some (t', o) → I t') :
    UnderWay env p r w' ∧ I w' := by
  refine h.history_of (I := fun t _ => UnderWay env p r t ∧ I t) (C := fun a => a ∈ as)
    (fun a ha => ha) ⟨hu, h0⟩ ?_
  intro t os t' a o ⟨hut, hit⟩ hmem hs
  have hne : a ≠ .shutdown p := by
    intro heq
    obtain rfl := heq
    exact ha hmem
  exact ⟨underWay_step hut hne (Move.of_step hs), hstep t a t' o hmem hut hit hs⟩

theorem committed_run (h : Run (step env) w as os w') (hu : UnderWay env p r w)
    (ha : .shutdown p ∉ as) (hc : (w.handlers r).committed) : (w'.handlers r).committed := by
  refine (underWay_run (I := fun t => (t.handlers r).committed) h hu ha hc ?_).2
  intro t a t' o hmem hut hit hs
  have hne : a ≠ .shutdown p := by
    intro heq
    obtain rfl := heq
    exact ha hmem
  exact committed_step hit hut hne (Move.of_step hs)

theorem not_committed {h : Handler} (hd : h.declined) : ¬ h.committed := by
  cases h with
  | rejected | failed => exact id
  | absent | active | answered => exact hd.elim

/-- A handler alone either commits, or leaves table and processes as they
were. -/
theorem alone_run (h : Run (step env) w as os w') (hu : UnderWay env p r w)
    (ha : ∀ a ∈ as, a = .handler r) :
    (w'.store = w.store ∧ w'.procs = w.procs) ∨ (w'.handlers r).committed := by
  have hno : .shutdown p ∉ as := fun hmem => nomatch ha _ hmem
  refine (underWay_run
    (I := fun t => (t.store = w.store ∧ t.procs = w.procs) ∨ (t.handlers r).committed)
    h hu hno (.inl ⟨rfl, rfl⟩) ?_).2
  intro t a t' o hmem hut hit hs
  obtain rfl := ha a hmem
  have hm := Move.of_step hs
  rcases hit with ⟨hstore, hprocs⟩ | hc
  · by_cases hsame : t'.store = t.store ∧ t'.procs = t.procs
    · exact .inl ⟨hsame.1.trans hstore, hsame.2.trans hprocs⟩
    · exact .inr (hm.commits (not_and_or.mp hsame))
  · have hne : Act.handler r ≠ .shutdown p := nofun
    exact .inr (committed_step hc hut hne hm)

/-- **Only admitted requests have effects.** A call of `create_event` begins in
any state, and the other parties do anything meanwhile; its process is not shut
down, since it does not suspend. -/
theorem only_admitted_effects (hreq : step env w₀ (.request p r req draws) = some (w₁, o₁)) :
    (w₁.store = w₀.store ∧ w₁.procs = w₀.procs) ∧
    (∀ as os w w' o, Run (step env) w₁ as os w → step env w (.handler r) = some (w', o) →
      (w'.store ≠ w.store ∨ w'.procs ≠ w.procs) →
      Admitted env (env.settings p) req ∧ JsonObjectBody env req.rawBody) ∧
    (∀ as os w, Run (step env) w₁ as os w → .shutdown p ∉ as → (w.handlers r).declined →
      (∀ al ol t t' o ar or, as = al ++ .handler r :: ar → Run (step env) w₁ al ol t →
        step env t (.handler r) = some (t', o) → Run (step env) t' ar or w →
        t'.store = t.store ∧ t'.procs = t.procs) ∧
      ((∀ a ∈ as, a = .handler r) → w.store = w₀.store ∧ w.procs = w₀.procs)) ∧
    (∀ settings headerToken s now, (adminCleanup settings headerToken s now).1.rows ≠ s.rows →
      settings.adminToken ≠ [] ∧ AdminBy headerToken settings.adminToken ∧
        settings.eventRetentionDays.isSome) := by
  obtain ⟨hstore, hprocs, harrived⟩ := request_arrives hreq
  refine ⟨⟨hstore, hprocs⟩, ?_, ?_, ?_⟩
  · intro as os w w' o hrun hs _
    rcases harrived with ⟨exc, hrejected⟩ | ⟨hadmitted, hbody, -⟩
    · -- a refused request has no further step
      have hstays := ended_stays hrun (by rw [hrejected]; exact nofun) (by rw [hrejected]; exact fun _ _ => nofun)
      obtain ⟨i, ph, hactive⟩ := (Move.of_step hs).handler_active
      rw [hstays, hrejected] at hactive
      cases hactive
    · exact ⟨hadmitted, hbody⟩
  · intro as os w hrun hno hdeclined
    rcases harrived with ⟨exc, hrejected⟩ | ⟨-, -, -, hunder⟩
    · have hpresent : w₁.handlers r ≠ .absent := by rw [hrejected]; exact nofun
      have hend : ∀ i ph, w₁.handlers r ≠ .active i ph := by rw [hrejected]; exact fun _ _ => nofun
      refine ⟨?_, fun hown => ?_⟩
      · intro al ol t t' o ar or _ hl hs _
        obtain ⟨i, ph, hactive⟩ := (Move.of_step hs).handler_active
        exact absurd ((ended_stays hl hpresent hend).symm.trans hactive) (hend i ph)
      · cases hrun with
        | nil => exact ⟨hstore, hprocs⟩
        | snoc h hs =>
          obtain rfl := hown _ (List.mem_append_right _ (List.mem_singleton_self _))
          obtain ⟨i, ph, hactive⟩ := (Move.of_step hs).handler_active
          exact absurd ((ended_stays h hpresent hend).symm.trans hactive) (hend i ph)
    · refine ⟨?_, fun hown => ?_⟩
      · intro al ol t t' o ar or has hl hs hr
        have hleft : .shutdown p ∉ al := fun hmem => hno (has ▸ List.mem_append_left _ hmem)
        have hright : .shutdown p ∉ ar := fun hmem =>
          hno (has ▸ List.mem_append_right _ (List.mem_cons_of_mem _ hmem))
        have hut : UnderWay env p r t :=
          (underWay_run (I := fun _ => True) hl hunder hleft trivial (fun _ _ _ _ _ _ _ _ => trivial)).1
        have hm := Move.of_step hs
        have hne : Act.handler r ≠ .shutdown p := nofun
        by_contra hch
        exact not_committed hdeclined
          (committed_run hr (underWay_step hut hne hm) hright (hm.commits (not_and_or.mp hch)))
      · rcases alone_run hrun hunder hown with ⟨hs, hp⟩ | hc
        · exact ⟨hs.trans hstore, hp.trans hprocs⟩
        · exact absurd hc (not_committed hdeclined)
  · intro settings headerToken s now hch
    obtain hsame | ⟨hne, hby, hret, -⟩ := adminCleanup_cases settings headerToken s now
    · exact absurd (congrArg Store.rows hsame) hch
    · exact ⟨hne, hby, hret⟩

end

/-- Two days after the epoch, so that a retention of one day deletes what was
stored in the first second. -/
def laterMoment : Moment := ⟨2 * dayMicros, by decide⟩

def guardedSettings : Settings :=
  { sampleEnv.settings 0 with adminToken := text "t", eventRetentionDays := some 1 }

/-- An accepted request, whose INSERT and whose cleanup change the table, and a
refused one. -/
theorem only_admitted_effects_runs :
    (Admitted sampleEnv (sampleEnv.settings 0) (sampleRequest none acceptedBody) ∧
      AdminBy (some "t") (text "t")) ∧
    ∃ w o, step sampleEnv upWorld (.request 0 1 undecodableRequest (sampleDraws 1 10)) = some (w, o) ∧
      w.store = upWorld.store ∧ w.procs = upWorld.procs := by
  constructor
  · have hrun : ((step sampleEnv upWorld (.request 0 1 (sampleRequest none acceptedBody)
        (sampleDraws 1 10))).bind (fun r => (step sampleEnv r.1 (.handler 1)).map (fun r' =>
          (r.1.store.rows.length, r'.1.store.rows.length,
            (adminCleanup guardedSettings (some "t") r'.1.store laterMoment).1.rows.length)))) =
        some (0, 1, 0) := by
      decide +kernel
    obtain ⟨⟨w₁, o₁⟩, hreq, hrest⟩ := Option.bind_eq_some_iff.mp hrun
    obtain ⟨⟨w', o⟩, hs, hlens⟩ := Option.map_eq_some_iff.mp hrest
    simp only [Prod.mk.injEq] at hlens
    obtain ⟨hbefore, hafter, hcleaned⟩ := hlens
    obtain ⟨-, heffect, -, hcleanup⟩ := only_admitted_effects hreq
    have hstore : w'.store ≠ w₁.store := by
      intro h
      rw [h, hbefore] at hafter
      cases hafter
    have hrows : (adminCleanup guardedSettings (some "t") w'.store laterMoment).1.rows ≠ w'.store.rows := by
      intro h
      rw [h, hafter] at hcleaned
      cases hcleaned
    exact ⟨(heffect [] [] w₁ w' o .nil hs (.inl hstore)).1, (hcleanup _ _ _ _ hrows).2.1⟩
  · have hrun : (step sampleEnv upWorld (.request 0 1 undecodableRequest (sampleDraws 1 10))).map
        (fun r => decide (r.1.handlers 1).declined) = some true := by
      decide +kernel
    obtain ⟨⟨w, o⟩, hreq, hd⟩ := Option.map_eq_some_iff.mp hrun
    obtain ⟨-, -, hdeclined, -⟩ := only_admitted_effects hreq
    refine ⟨w, o, hreq, ?_⟩
    exact (hdeclined [] [] w .nil List.not_mem_nil (of_decide_eq_true hd)).2 (fun a ha => nomatch ha)

end WebhookRelay
