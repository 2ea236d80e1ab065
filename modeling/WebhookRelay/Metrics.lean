import Mathlib.Algebra.GroupWithZero.Nat
import WebhookRelay.Consistency
import WebhookRelay.Readback

/-
  The business metrics of a process. Each counter moves at one kind of step
  (`Move.counters`), so it counts what the history or the steps show. Two of the
  balances hold only up to what is on the way, which a `Ledger` holds: an event
  between its INSERT and its count, and the POSTs of a `relay_event` that has not
  returned. A call that ends in another way takes its POSTs out of the balance:
  `cancelled_attempt_uncounted` is one, cancelled by a shutdown between two
  attempts.
-/
namespace WebhookRelay

open Py Transition

/-! ## What is counted -/

/-- The INSERTs of process `p` for a source. -/
def insertedIn (p : Nat) (source : String) (w : World) (a : Act) (o : Obs) (_ : World) : Option Event :=
  match o with
  | .inserted _ row => if a.process w = some p ∧ row.source = source then some row else none
  | _ => none

/-- A POST has ended in a response or an `httpx.HTTPError`. -/
def Effect.isAnswer : Effect → Bool
  | .answered (.raised _) => false
  | .answered _ => true
  | _ => false

/-- A job of process `p` shows an effect of a kind. -/
def Obs.jobShows (p : Nat) (kind : Effect → Bool) : Obs → Bool
  | .job p' _ _ eff => p' == p && kind eff
  | _ => false

/-- The outcome of a call of `relay_event` that has returned. -/
def Position.outcome? : Position → Option RelayOutcome
  | .persist out => some out
  | _ => none

/-- What `relay_event` returns in process `p`. -/
def returnedIn (p : Nat) (_ : World) (a : Act) (_ : Obs) (w' : World) : Option RelayOutcome :=
  match a with
  | .work p' t _ => if p' = p then (w'.jobAt p t).bind (fun j => j.2.2.outcome?) else none
  | _ => none

/-- A call of `relay_event` is in progress. -/
def Position.InProgress : Position → Prop
  | .resolving | .attempt _ _ | .inFlight _ _ => True
  | .start | .persist _ | .returned | .raised _ => False

/-- The POSTs a call in progress has started. -/
def Position.posts : Position → Nat
  | .attempt n _ => n - 1
  | .inFlight n _ => n
  | _ => 0

/-- The POSTs of a call in progress that have ended. -/
def Position.answers : Position → Nat
  | .attempt n _ | .inFlight n _ => n - 1
  | _ => 0

/-- No call of `relay_event` in process `p` is cancelled after its first POST. -/
def SparesCalls (p : Nat) (w : World) (a : Act) : Prop :=
  ∀ t q job pos, a = .cancelled p t → w.jobAt p t = some (q, job, pos) → pos.posts = 0

/-! ## The counters of a process -/

/-- The counters agree. -/
structure Proc.SameCounters (P P' : Proc) : Prop where
  received : P'.eventsReceivedTotal = P.eventsReceivedTotal
  attempts : P'.relayAttemptsTotal = P.relayAttemptsTotal
  successes : P'.relaySuccessesTotal = P.relaySuccessesTotal
  latency : P'.relayLatencyCount = P.relayLatencyCount

theorem Proc.SameCounters.refl (P : Proc) : P.SameCounters P := ⟨rfl, rfl, rfl, rfl⟩

/-- What a step's observation does to the counters of process `p`, when the step
is one of process `actor`. -/
def Proc.metered (P : Proc) (p : Nat) (actor : Option Nat) : Obs → Proc
  | .counted _ source => if actor = some p then P.receive source else P
  | .job p' _ _ eff => if p' = p then P.count eff else P
  | _ => P

theorem Proc.SameCounters.count {P P' : Proc} (h : P.SameCounters P') (eff : Effect) :
    (P.count eff).SameCounters (P'.count eff) := by
  obtain ⟨hreceived, hattempts, hsuccesses, hlatency⟩ := h
  unfold Proc.count
  split
  · exact ⟨hreceived, by rw [hattempts], hsuccesses, hlatency⟩
  · exact ⟨hreceived, hattempts, hsuccesses, hlatency⟩
  · exact ⟨hreceived, hattempts, by rw [hsuccesses], by rw [hlatency]⟩
  · exact ⟨hreceived, hattempts, hsuccesses, hlatency⟩

section

variable {env : Env} {w w' : World} {a : Act} {o : Obs} {as : List Act} {os : List Obs}

/-- The counters of a process move with the observation, and only then. -/
theorem Move.counters (hm : Move env w a w' o) (p : Nat) :
    ((w.procs p).metered p (a.process w) o).SameCounters (w'.procs p) := by
  -- a step that replaces one process, without and with a job's effect
  have replaced : ∀ p' P, (w.procs p').SameCounters P → (w.procs p).SameCounters ((w.setProc p' P).procs p) := by
    intro p' P hsame
    rcases w.setProc_cases p p' P with ⟨rfl, h⟩ | h <;> rw [h]
    · exact hsame
    · exact .refl _
  have worked : ∀ p' t id eff P, ((w.procs p').count eff).SameCounters P →
      ((w.procs p).metered p (a.process w) (.job p' t id eff)).SameCounters ((w.setProc p' P).procs p) := by
    intro p' t id eff P hsame
    by_cases hp : p' = p
    · subst hp
      rw [World.setProc_procs, Function.update_self, Proc.metered, if_pos rfl]
      exact hsame
    · rw [World.setProc_procs, Function.update_of_ne (Ne.symm hp), Proc.metered, if_neg hp]
      exact .refl _
  cases hm with
  | started | stopped | closed | began | beganLate | idled | enqueued => exact replaced _ _ ⟨rfl, rfl, rfl, rfl⟩
  | rejected | built | inserted | conflict | lostInsert | replayed | lostLookup | refused | uninitialised
  | marked | deleted => exact .refl _
  | @countedRelay _ i hh | @countedOnly _ i hh =>
    rw [World.setHandler_procs, World.setProc_procs, Proc.metered]
    simp only [Act.process, hh, Option.some.injEq]
    by_cases hp : i.pid = p
    · subst hp
      rw [if_pos rfl, Function.update_self]
      exact .refl _
    · rw [if_neg hp, Function.update_of_ne (Ne.symm hp)]
      exact .refl _
  | taken | recorded | finished | dropped => exact worked _ _ _ _ _ ⟨rfl, rfl, rfl, rfl⟩
  | worked =>
    refine worked _ _ _ _ _ (Proc.SameCounters.count ?_ _)
    exact ⟨rfl, rfl, rfl, rfl⟩

/-! ## Counters of effects -/

/-- An effect moves one counter for each kind it is of. -/
theorem Proc.count_effects (P : Proc) (eff : Effect) :
    (P.count eff).relayAttemptsTotal = P.relayAttemptsTotal + (if eff.isPost then 1 else 0) ∧
      (P.count eff).relaySuccessesTotal = P.relaySuccessesTotal + (if eff.isSuccess then 1 else 0) ∧
      (P.count eff).relayLatencyCount = P.relayLatencyCount + if eff.isAnswer then 1 else 0 := by
  cases eff with
  | answered res => cases res <;> exact ⟨rfl, rfl, rfl⟩
  | taken | called | resolved _ | posted _ | recorded _ | finished | dropped => exact ⟨rfl, rfl, rfl⟩

theorem Proc.metered_effects (P : Proc) (p : Nat) (actor : Option Nat) (o : Obs) :
    (P.metered p actor o).relayAttemptsTotal =
        P.relayAttemptsTotal + (if o.jobShows p Effect.isPost then 1 else 0) ∧
      (P.metered p actor o).relaySuccessesTotal =
        P.relaySuccessesTotal + (if o.jobShows p Effect.isSuccess then 1 else 0) ∧
      (P.metered p actor o).relayLatencyCount =
        P.relayLatencyCount + if o.jobShows p Effect.isAnswer then 1 else 0 := by
  cases o with
  | counted r source =>
    rw [Proc.metered]
    split <;> exact ⟨rfl, rfl, rfl⟩
  | job p' t id eff =>
    rw [Proc.metered]
    by_cases hp : p' = p
    · subst hp
      simp only [if_pos, Obs.jobShows, beq_self_eq_true, Bool.true_and]
      exact P.count_effects eff
    · simp [hp, Obs.jobShows]
  | started | stopped | closed | rejected | built | inserted | conflict | replayed | lost | enqueued
  | refused | uninitialised | marked | began | idled | deleted => exact ⟨rfl, rfl, rfl⟩

/-- A counter of effects counts those of its process's jobs. -/
theorem effects_counted (h : Run (step env) World.initial as os w) (p : Nat) :
    (w.procs p).relayAttemptsTotal = os.countP (Obs.jobShows p Effect.isPost) ∧
      (w.procs p).relaySuccessesTotal = os.countP (Obs.jobShows p Effect.isSuccess) ∧
      (w.procs p).relayLatencyCount = os.countP (Obs.jobShows p Effect.isAnswer) := by
  induction h with
  | nil => exact ⟨rfl, rfl, rfl⟩
  | @snoc t t' as os a o hrun hs ih =>
    have hcount := (Move.of_step hs).counters p
    obtain ⟨hattempts, hsuccesses, hlatency⟩ := (t.procs p).metered_effects p (a.process t) o
    simp only [List.countP_append, List.countP_singleton]
    refine ⟨?_, ?_, ?_⟩
    · rw [hcount.attempts, hattempts, ih.1]
    · rw [hcount.successes, hsuccesses, ih.2.1]
    · rw [hcount.latency, hlatency, ih.2.2]

/-! ## Events received -/

theorem Proc.metered_job_received (P : Proc) (p p' t : Nat) (actor : Option Nat) (id : String) (eff : Effect) :
    (P.metered p actor (.job p' t id eff)).eventsReceivedTotal = P.eventsReceivedTotal := by
  rw [Proc.metered]
  split
  · cases eff with
    | answered res => cases res <;> rfl
    | taken | called | resolved _ | posted _ | recorded _ | finished | dropped => rfl
  · rfl

/-- An event that is stored and not yet counted. -/
def Handler.uncounted (p : Nat) (source : String) : Handler → Nat
  | .active i .counting => if i.pid = p ∧ i.event.source = source then 1 else 0
  | _ => 0

/-- An event is stored, and later counted, by the handler that holds it in
between. -/
theorem Move.received (hm : Move env w a w' o) (p : Nat) (source : String) :
    ∃ r, (∀ r', r' ≠ r → (w'.handlers r').uncounted p source = (w.handlers r').uncounted p source) ∧
      (insertedIn p source w a o w').toList.length + (w.procs p).eventsReceivedTotal source +
          (w.handlers r).uncounted p source =
        (w'.procs p).eventsReceivedTotal source + (w'.handlers r).uncounted p source := by
  have hcount : (w'.procs p).eventsReceivedTotal = ((w.procs p).metered p (a.process w) o).eventsReceivedTotal :=
    (hm.counters p).received
  rw [hcount]
  have other : ∀ r h r', r' ≠ r → (Function.update w.handlers r h r').uncounted p source =
      (w.handlers r').uncounted p source := by
    intro r h r' hne
    rw [Function.update_of_ne hne]
  cases hm with
  | started | stopped | closed | began | beganLate | idled | deleted =>
    exact ⟨0, fun _ _ => rfl, congrArg (· + _) (Nat.zero_add _)⟩
  | taken | worked | recorded | finished | dropped =>
    refine ⟨0, fun _ _ => rfl, ?_⟩
    rw [Proc.metered_job_received]
    exact congrArg (· + _) (Nat.zero_add _)
  | rejected ha | built ha =>
    refine ⟨_, other _ _, ?_⟩
    simp [insertedIn, Proc.metered, ha, Handler.uncounted]
  | @inserted r i s hh hs =>
    refine ⟨r, other _ _, ?_⟩
    have hsource : (i.row env).source = i.event.source := rfl
    by_cases hmine : i.pid = p ∧ i.event.source = source <;>
      simp [insertedIn, Proc.metered, hh, Handler.uncounted, Act.process, hsource, hmine, Nat.add_comm]
  | conflict hh | lostInsert hh | replayed hh | lostLookup hh | enqueued hh | refused hh | uninitialised hh
  | marked hh =>
    refine ⟨_, other _ _, ?_⟩
    simp [insertedIn, Proc.metered, hh, Handler.uncounted]
  | @countedRelay r i hh | @countedOnly r i hh =>
    refine ⟨r, other _ _, ?_⟩
    by_cases hpid : i.pid = p <;> by_cases hsource : i.event.source = source <;>
      simp [insertedIn, Proc.metered, Proc.receive, hh, Handler.uncounted, Act.process, hpid, hsource,
        update_succ_apply]

/-- The events stored are those counted, and those whose handler is about to
count them. -/
theorem received_run (h : Run (step env) World.initial as os w) (p : Nat) (source : String) :
    Ledger (fun r => (w.handlers r).uncounted p source)
      (along (step env) (insertedIn p source) World.initial as).length
      ((w.procs p).eventsReceivedTotal source) := by
  induction h with
  | nil => exact .empty (fun _ => rfl)
  | @snoc t t' as os a o hrun hs ih =>
    obtain ⟨r, hother, hr⟩ := (Move.of_step hs).received p source
    apply ih.move hother
    rw [hrun.along_snoc _ hs, List.length_append]
    omega

/-! ## Calls of `relay_event` -/

/-- The attempts of the outcome a call has returned at a position, if it has. -/
def Position.returnedAttempts (pos : Position) : Nat := (pos.outcome?.map (fun out => out.attempts)).getD 0

/-- The preflight returns no attempts and no success. -/
theorem afterResolution_idle (env : Env) (client : Bool) (job : RelayJob) (ips : List String) :
    (afterResolution env client job ips).posts = 0 ∧ (afterResolution env client job ips).answers = 0 ∧
      (afterResolution env client job ips).returnedAttempts = 0 ∧
      (afterResolution env client job ips).outcome?.any (fun out => out.success) = false := by
  rcases afterResolution_cases env client job ips with ⟨_, -, h⟩ | ⟨_, hs, h⟩ | ⟨-, _, h⟩ | ⟨-, h⟩ <;> rw [h]
  · exact ⟨rfl, rfl, rfl, rfl⟩
  · obtain ⟨reason, -, rfl⟩ := screenIps_skips hs
    exact ⟨rfl, rfl, rfl, rfl⟩
  · exact ⟨rfl, rfl, rfl, rfl⟩
  · exact ⟨rfl, rfl, rfl, rfl⟩

/-- A failed pass keeps its POSTs for the next one, or returns them all. -/
theorem afterFailure_attempts {n : Nat} (hn : n ≤ maxAttempts) (vars : LoopVars) :
    (afterFailure n vars).posts + (afterFailure n vars).returnedAttempts = n ∧
      (afterFailure n vars).answers + (afterFailure n vars).returnedAttempts = n ∧
      (afterFailure n vars).outcome?.any (fun out => out.success) = false := by
  unfold afterFailure
  split
  · exact ⟨rfl, rfl, rfl⟩
  · next hlast =>
    have heq : maxAttempts = n := Nat.le_antisymm (Nat.le_of_not_lt hlast) hn
    refine ⟨?_, ?_, rfl⟩ <;> exact (Nat.zero_add _).trans heq

/-- So does every pass, when its POST ended in a response or an
`httpx.HTTPError`; it returns a success exactly for a 2xx. -/
theorem afterPost_attempts {n : Nat} (hn : n ≤ maxAttempts) (vars : LoopVars) (res : PostResult) :
    (Effect.isAnswer (.answered res) = true →
      (afterPost n vars res).posts + (afterPost n vars res).returnedAttempts = n ∧
        (afterPost n vars res).answers + (afterPost n vars res).returnedAttempts = n) ∧
      (afterPost n vars res).outcome?.any (fun out => out.success) = res.ok := by
  have failed : ∀ vars', afterPost n vars res = afterFailure n vars' → res.ok = false →
      (Effect.isAnswer (.answered res) = true →
        (afterPost n vars res).posts + (afterPost n vars res).returnedAttempts = n ∧
          (afterPost n vars res).answers + (afterPost n vars res).returnedAttempts = n) ∧
        (afterPost n vars res).outcome?.any (fun out => out.success) = res.ok := by
    intro vars' heq hok
    obtain ⟨hposts, hanswers, hsuccess⟩ := afterFailure_attempts hn vars'
    rw [heq, hok]
    exact ⟨fun _ => ⟨hposts, hanswers⟩, hsuccess⟩
  cases res with
  | response statusCode =>
    by_cases hok : 200 ≤ statusCode ∧ statusCode < 300
    · rw [afterPost, if_pos hok]
      refine ⟨fun _ => ⟨Nat.zero_add n, Nat.zero_add n⟩, ?_⟩
      simpa [PostResult.ok, Position.outcome?] using hok
    · apply failed _ (if_neg hok)
      simpa [PostResult.ok] using hok
  | timeoutException _ => exact failed _ rfl rfl
  | connectError _ => exact failed _ rfl rfl
  | httpError _ => exact failed _ rfl rfl
  | raised exc => exact ⟨fun hf => absurd hf Bool.false_ne_true, rfl⟩

section

variable {client : Bool} {job : RelayJob} {pos pos' : Position} {input : Input} {eff : Effect}

/-- A turn starts a POST, ends one, or returns those of its call. -/
theorem Turn.attempts (ht : Turn env client job pos input pos' eff) (hsound : pos.Sound)
    (hanswer : ∀ exc, eff ≠ .answered (.raised exc)) :
    (if eff.isPost then 1 else 0) + pos.posts = pos'.returnedAttempts + pos'.posts ∧
      (if eff.isAnswer then 1 else 0) + pos.answers = pos'.returnedAttempts + pos'.answers := by
  cases ht with
  | unparsed _ | named _ _ | gaierror | unresolved | recorded => exact ⟨rfl, rfl⟩
  | skipped hp =>
    obtain ⟨reason, -, rfl⟩ := preflightPolicy_skips hp
    exact ⟨rfl, rfl⟩
  | literal _ _ | resolved =>
    obtain ⟨hposts, hanswers, hreturned, -⟩ := afterResolution_idle env client job _
    rw [hposts, hanswers, hreturned]
    exact ⟨rfl, rfl⟩
  | @posted n =>
    have hn : 1 + (n - 1) = n := Nat.add_sub_cancel' hsound.1.1
    exact ⟨hn.trans (Nat.zero_add n).symm, rfl⟩
  | @answered n vars res =>
    have hres : Effect.isAnswer (.answered res) = true := by
      cases res with
      | raised exc => exact absurd rfl (hanswer exc)
      | response | timeoutException | connectError | httpError => rfl
    have hn : 1 + (n - 1) = n := Nat.add_sub_cancel' hsound.1.1
    obtain ⟨hposts, hanswers⟩ := (afterPost_attempts hsound.1.2 vars res).1 hres
    rw [hres, if_pos rfl]
    refine ⟨?_, ?_⟩
    · calc 0 + n = n := Nat.zero_add n
        _ = (afterPost n vars res).posts + (afterPost n vars res).returnedAttempts := hposts.symm
        _ = (afterPost n vars res).returnedAttempts + (afterPost n vars res).posts := Nat.add_comm _ _
    · calc 1 + (n - 1) = n := hn
        _ = (afterPost n vars res).answers + (afterPost n vars res).returnedAttempts := hanswers.symm
        _ = (afterPost n vars res).returnedAttempts + (afterPost n vars res).answers := Nat.add_comm _ _

/-- A call returns a success exactly when a POST is answered with a 2xx. -/
theorem Turn.success (ht : Turn env client job pos input pos' eff) (hsound : pos.Sound) :
    pos'.outcome?.any (fun out => out.success) = eff.isSuccess := by
  cases ht with
  | unparsed _ | named _ _ | gaierror | unresolved | recorded | posted _ => rfl
  | skipped hp =>
    obtain ⟨reason, -, rfl⟩ := preflightPolicy_skips hp
    rfl
  | literal _ _ | resolved => exact (afterResolution_idle env client job _).2.2.2
  | @answered n vars res => exact (afterPost_attempts hsound.1.2 vars res).2

end

/-- A step that shows nothing of a task leaves its job. -/
theorem JobShift.unseen {p t : Nat} {x : Option (Nat × RelayJob × Position)} (h : JobShift env w p t a o x)
    (ho : ∀ id eff, o ≠ .job p t id eff) : x = w.jobAt p t := by
  cases h with
  | same hnew _ => exact hnew
  | taken _ _ ho' _ | turned _ _ _ _ ho' _ | finished _ _ ho' _ | dropped _ _ ho' _ => exact absurd ho' (ho _ _)

theorem Move.dropped_by {p t : Nat} {id : String} (hm : Move env w a w' (.job p t id .dropped)) :
    a = .cancelled p t := by
  generalize ho : Obs.job p t id .dropped = o at hm
  cases hm with
  | @worked _ _ _ _ _ _ _ _ _ _ ha _ =>
    cases ho
    cases (Turn.of_advance ha).effect p t ""
  | dropped =>
    cases ho
    rfl
  | started | stopped | closed | rejected | built | inserted | conflict | lostInsert | replayed | lostLookup
  | countedRelay | countedOnly | enqueued | refused | uninitialised | marked | began | beganLate | taken
  | recorded | finished | idled | deleted => cases ho

/-- The effects around a call. -/
def Effect.Around (eff : Effect) : Prop := eff = .taken ∨ eff = .finished ∨ eff = .dropped

/-- What a step does to the calls of process `p`: it runs one of them from one
suspension point to the next, or it runs none, and at most begins or drops one. -/
inductive CallShift (env : Env) (p : Nat) (w : World) (a : Act) (o : Obs) (w' : World) : Prop where
  | turned {t q : Nat} {job : RelayJob} {pos pos' : Position} {input : Input} {eff : Effect}
      (hother : ∀ t', t' ≠ t → w'.jobAt p t' = w.jobAt p t')
      (hold : w.jobAt p t = some (q, job, pos)) (hnew : w'.jobAt p t = some (q, job, pos'))
      (ht : Turn env (w.procs p).client job pos input pos' eff) (ho : o = .job p t job.eventId eff)
      (hreturned : returnedIn p w a o w' = pos'.outcome?)
  | unturned {t : Nat} (hother : ∀ t', t' ≠ t → w'.jobAt p t' = w.jobAt p t')
      (hsame : w'.jobAt p t = w.jobAt p t ∨
        (w.jobAt p t = none ∧ ∃ q job, w'.jobAt p t = some (q, job, .start)) ∨
        (w'.jobAt p t = none ∧ ∃ q job pos, w.jobAt p t = some (q, job, pos) ∧
          (pos.ended?.isSome = true ∨ a = .cancelled p t)))
      (ho : ∀ t id eff, o = .job p t id eff → eff.Around)
      (hreturned : returnedIn p w a o w' = none)

/-- What a `work` step does. -/
theorem Move.worked_turn {p t : Nat} {input : Input} (hm : Move env w (.work p t input) w' o)
    (hw : ∀ p, (w.procs p).dispatcher.WF) : ∃ q job pos pos' eff, w.jobAt p t = some (q, job, pos) ∧
      w'.jobAt p t = some (q, job, pos') ∧ Turn env (w.procs p).client job pos input pos' eff ∧
      o = .job p t job.eventId eff := by
  have heff : ∃ id eff, o.effect id = some eff := by
    cases hm with
    | worked _ _ ha _ => exact ⟨_, _, (Turn.of_advance ha).effect p t _⟩
    | recorded => exact ⟨_, _, if_pos rfl⟩
  obtain ⟨id, eff, heff⟩ := heff
  obtain ⟨p', t', q, job, pos, pos', input', hold, hid, ha, -, ht, ho, hnew⟩ := effect_turned hm hw heff
  cases ha
  rw [← hid] at ho
  exact ⟨q, job, pos, pos', eff, hold, hnew, ht, ho⟩

theorem Move.callShift (hm : Move env w a w' o) (hw : ∀ p, (w.procs p).dispatcher.WF) (p : Nat) :
    CallShift env p w a o w' := by
  have hshift := hm.jobShift hw p
  have other : ∀ t id eff, o = .job p t id eff → ∀ t', t' ≠ t → w'.jobAt p t' = w.jobAt p t' := by
    intro t id eff ho t' hne
    apply (hshift t').unseen
    intro id' eff' ho'
    rw [ho] at ho'
    cases ho'
    exact hne rfl
  by_cases hwork : ∃ t input, a = .work p t input
  · obtain ⟨t, input, rfl⟩ := hwork
    obtain ⟨q, job, pos, pos', eff, hold, hnew, ht, ho⟩ := hm.worked_turn hw
    refine .turned (other t _ _ ho) hold hnew ht ho ?_
    rw [returnedIn, if_pos rfl, hnew]
    rfl
  · have hreturned : returnedIn p w a o w' = none := by
      unfold returnedIn
      split
      · next p' t input =>
        apply if_neg
        intro heq
        obtain rfl := heq
        exact hwork ⟨t, input, rfl⟩
      · rfl
    have hno : ∀ t input, a ≠ .work p t input := fun t input h => hwork ⟨t, input, h⟩
    have around : ∀ u id eff, o = .job p u id eff → eff.Around →
        ∀ t id' eff', o = .job p t id' eff' → eff'.Around := by
      intro u id eff ho heff t id' eff' ho'
      rw [ho] at ho'
      cases ho'
      exact heff
    by_cases hseen : ∃ t id eff, o = .job p t id eff
    · obtain ⟨t, id, eff, ho⟩ := hseen
      cases hshift t with
      | same _ hnone => exact absurd ho (hnone _ _)
      | taken hfree _ ho' hnew =>
        exact .unturned (other t _ _ ho) (.inr (.inl ⟨hfree, _, _, hnew⟩)) (around _ _ _ ho' (.inl rfl)) hreturned
      | turned _ ha => exact absurd ha (hno t _)
      | @finished _ _ pos e hold he ho' hnew =>
        have hended : pos.ended?.isSome = true := by
          rw [he]
          rfl
        exact .unturned (other t _ _ ho) (.inr (.inr ⟨hnew, _, _, _, hold, .inl hended⟩))
          (around _ _ _ ho' (.inr (.inl rfl))) hreturned
      | dropped hold _ ho' hnew =>
        have hcancelled : a = .cancelled p t := Move.dropped_by (ho' ▸ hm)
        exact .unturned (other t _ _ ho) (.inr (.inr ⟨hnew, _, _, _, hold, .inr hcancelled⟩))
          (around _ _ _ ho' (.inr (.inr rfl))) hreturned
    · have hsame : ∀ t, w'.jobAt p t = w.jobAt p t := by
        intro t
        exact (hshift t).unseen (fun id eff ho => hseen ⟨t, id, eff, ho⟩)
      refine .unturned (t := 0) (fun t' _ => hsame t') (.inl (hsame 0)) ?_ hreturned
      exact fun t id eff ho => absurd ⟨t, id, eff, ho⟩ hseen

theorem Obs.jobShows_quiet {kind : Effect → Bool} {p : Nat} (hquiet : ∀ eff : Effect, eff.Around → kind eff = false)
    (ho : ∀ t id eff, o = .job p t id eff → eff.Around) : o.jobShows p kind = false := by
  cases o with
  | job p' t id eff =>
    by_cases hp : p' = p
    · subst hp
      rw [Obs.jobShows, hquiet eff (ho t id eff rfl), Bool.and_false]
    · rw [Obs.jobShows, beq_false_of_ne hp, Bool.false_and]
  | started | stopped | closed | rejected | built | inserted | conflict | replayed | lost | counted | enqueued
  | refused | uninitialised | marked | began | idled | deleted => rfl

/-- A measure of the calls in progress: what is of a kind comes into it, and goes
out of it with the attempts a call returns. -/
structure Measures (kind : Effect → Bool) (m : Position → Nat) : Prop where
  le_posts : ∀ pos, m pos ≤ pos.posts
  quiet : ∀ eff : Effect, eff.Around → kind eff = false
  turn : ∀ {env : Env} {client : Bool} {job : RelayJob} {pos pos' : Position} {input : Input} {eff : Effect},
    Turn env client job pos input pos' eff → pos.Sound → (∀ exc, eff ≠ .answered (.raised exc)) →
    (if kind eff then 1 else 0) + m pos = pos'.returnedAttempts + m pos'

theorem measures_posts : Measures Effect.isPost Position.posts where
  le_posts _ := Nat.le_refl _
  quiet eff h := by rcases h with rfl | rfl | rfl <;> rfl
  turn ht hsound hanswer := (ht.attempts hsound hanswer).1

theorem measures_answers : Measures Effect.isAnswer Position.answers where
  le_posts pos := by
    cases pos with
    | inFlight n vars => exact Nat.sub_le n 1
    | start | resolving | attempt _ _ | persist _ | returned | raised _ => exact Nat.le_refl _
  quiet eff h := by rcases h with rfl | rfl | rfl <;> rfl
  turn ht hsound hanswer := (ht.attempts hsound hanswer).2

/-- What the call of a task holds. -/
def World.inCall (w : World) (m : Position → Nat) (p t : Nat) : Nat :=
  ((w.jobAt p t).map (fun j => m j.2.2)).getD 0

theorem World.inCall_some {m : Position → Nat} {p t q : Nat} {job : RelayJob} {pos : Position}
    (h : w.jobAt p t = some (q, job, pos)) : w.inCall m p t = m pos := by
  rw [World.inCall, h]
  rfl

theorem World.inCall_none {m : Position → Nat} {p t : Nat} (h : w.jobAt p t = none) : w.inCall m p t = 0 := by
  rw [World.inCall, h]
  rfl

theorem Position.posts_ended {pos : Position} (h : pos.ended?.isSome = true) : pos.posts = 0 := by
  cases pos with
  | returned | raised _ => rfl
  | start | resolving | attempt _ _ | inFlight _ _ | persist _ => cases h

/-- The attempts a step returns. -/
def returnedSum (p : Nat) (w : World) (a : Act) (o : Obs) (w' : World) : Nat :=
  ((returnedIn p w a o w').toList.map (fun out => out.attempts)).sum

/-- A step brings an effect into one call at most, or takes the attempts it
returns out of it. -/
theorem CallShift.measured {kind : Effect → Bool} {m : Position → Nat} {p : Nat} (hm : Measures kind m)
    (h : CallShift env p w a o w') (hsound : ∀ t q job pos, w.jobAt p t = some (q, job, pos) → pos.Sound)
    (hspares : SparesCalls p w a) (hanswer : ∀ t id exc, o ≠ .job p t id (.answered (.raised exc))) :
    ∃ t, (∀ t', t' ≠ t → w'.inCall m p t' = w.inCall m p t') ∧
      (if o.jobShows p kind then 1 else 0) + w.inCall m p t = returnedSum p w a o w' + w'.inCall m p t := by
  have others : ∀ t, (∀ t', t' ≠ t → w'.jobAt p t' = w.jobAt p t') →
      ∀ t', t' ≠ t → w'.inCall m p t' = w.inCall m p t' := by
    intro t hother t' hne
    rw [World.inCall, hother t' hne, World.inCall]
  cases h with
  | @turned t q job pos pos' input eff hother hold hnew ht ho hreturned =>
    refine ⟨t, others t hother, ?_⟩
    have hturn := hm.turn ht (hsound t q job pos hold) (fun exc heff => hanswer t job.eventId exc (heff ▸ ho))
    have hattempts : returnedSum p w a o w' = pos'.returnedAttempts := by
      rw [returnedSum, hreturned, Position.returnedAttempts]
      cases pos'.outcome? <;> simp
    have hshows : o.jobShows p kind = kind eff := by
      rw [ho, Obs.jobShows, beq_self_eq_true, Bool.true_and]
    rw [hattempts, hshows, World.inCall_some hold, World.inCall_some hnew]
    exact hturn
  | @unturned t hother hsame ho hreturned =>
    refine ⟨t, others t hother, ?_⟩
    have hquiet : o.jobShows p kind = false := Obs.jobShows_quiet hm.quiet ho
    have hattempts : returnedSum p w a o w' = 0 := by rw [returnedSum, hreturned]; rfl
    -- a position without POSTs measures nothing
    have hzero : ∀ pos : Position, pos.posts = 0 → m pos = 0 := fun pos hpos =>
      Nat.eq_zero_of_le_zero (hpos ▸ hm.le_posts pos)
    rw [hattempts, hquiet, if_neg Bool.false_ne_true]
    rcases hsame with hsame | ⟨hold, q, job, hnew⟩ | ⟨hnew, q, job, pos, hold, hend⟩
    · rw [World.inCall, World.inCall, hsame]
    · rw [World.inCall_none hold, World.inCall_some hnew, hzero _ rfl]
    · rw [World.inCall_some hold, World.inCall_none hnew, hzero pos ?_]
      rcases hend with hend | hend
      · exact Position.posts_ended hend
      · exact hspares t q job pos hend hold

/-- When no call is lost, a process's effects of a measured kind are the attempts
its calls have returned, and what the calls in progress hold. -/
theorem measured_run {kind : Effect → Bool} {m : Position → Nat} (hm : Measures kind m)
    (h : Run (step env) World.initial as os w) {p : Nat}
    (hspares : Meets (step env) (SparesCalls p) World.initial as)
    (hanswer : ∀ t id exc, .job p t id (.answered (.raised exc)) ∉ os) :
    Ledger (w.inCall m p) (os.countP (Obs.jobShows p kind))
      ((along (step env) (returnedIn p) World.initial as).map (fun out => out.attempts)).sum := by
  induction h with
  | nil => exact .empty (fun _ => rfl)
  | @snoc t t' as os a o hrun hs ih =>
    have hpre := ih hspares.init (fun u id exc hmem => hanswer u id exc (List.mem_append_left _ hmem))
    have hsound : ∀ u q job pos, t.jobAt p u = some (q, job, pos) → pos.Sound := by
      intro u q job pos hjob
      exact ((traced_run hrun).running p u q job pos hjob).sound
    obtain ⟨u, hother, hu⟩ := ((Move.of_step hs).callShift (workers_run hrun) p).measured hm hsound
      (hspares.last hrun)
      (fun u id exc ho => hanswer u id exc (List.mem_append_right _ (List.mem_singleton.mpr ho.symm)))
    apply hpre.move hother
    rw [List.countP_append, List.countP_singleton, hrun.along_snoc _ hs, List.map_append, List.sum_append,
      ← returnedSum]
    omega

/-- The calls that return a success are the POSTs answered with a 2xx. -/
theorem successes_run (h : Run (step env) World.initial as os w) (p : Nat) :
    (along (step env) (returnedIn p) World.initial as).countP (fun out => out.success) =
      os.countP (Obs.jobShows p Effect.isSuccess) := by
  induction h with
  | nil => rfl
  | @snoc t t' as os a o hrun hs ih =>
    rw [hrun.along_snoc _ hs, List.countP_append, List.countP_append, ih, List.countP_singleton]
    congr 1
    cases (Move.of_step hs).callShift (workers_run hrun) p with
    | @turned u q job pos pos' input eff _ hold _ ht ho hreturned =>
      have hsuccess := ht.success ((traced_run hrun).running p u q job pos hold).sound
      rw [hreturned, ho, Obs.jobShows, beq_self_eq_true, Bool.true_and, ← hsuccess]
      cases pos'.outcome? <;> simp
    | unturned _ _ ho hreturned =>
      have hquiet : o.jobShows p Effect.isSuccess = false := by
        refine Obs.jobShows_quiet ?_ ho
        intro eff heff
        rcases heff with rfl | rfl | rfl <;> rfl
      rw [hreturned, hquiet]
      rfl

theorem Position.idle_posts {pos : Position} (h : ¬ pos.InProgress) : pos.posts = 0 ∧ pos.answers = 0 := by
  cases pos with
  | start | persist _ | returned | raised _ => exact ⟨rfl, rfl⟩
  | resolving | attempt _ _ | inFlight _ _ => exact absurd trivial h

/-- **Business metrics balance.** In every run, for every process: with no
handler between its INSERT and its count, the events received for a source are
the rows inserted for it; the attempts are the POSTs started, and the successes
those answered with a 2xx, which are the calls of `relay_event` that returned a
success. If besides every POST ended in a response or an `httpx.HTTPError`, and
no call was cancelled after its first POST, then with no call in progress the
attempts are the sum of those returned, and the latency histogram has as many
observations. -/
theorem metrics_balance (h : Run (step env) World.initial as os w) (p : Nat) :
    ((∀ r i, w.handlers r = .active i .counting → i.pid ≠ p) →
      ∀ source, (w.procs p).eventsReceivedTotal source =
        (along (step env) (insertedIn p source) World.initial as).length) ∧
    (w.procs p).relayAttemptsTotal = os.countP (Obs.jobShows p Effect.isPost) ∧
    (w.procs p).relaySuccessesTotal = os.countP (Obs.jobShows p Effect.isSuccess) ∧
    (w.procs p).relaySuccessesTotal =
      (along (step env) (returnedIn p) World.initial as).countP (fun out => out.success) ∧
    (Meets (step env) (SparesCalls p) World.initial as →
      (∀ t id exc, .job p t id (.answered (.raised exc)) ∉ os) →
      (∀ t q job pos, w.jobAt p t = some (q, job, pos) → ¬ pos.InProgress) →
      (w.procs p).relayAttemptsTotal =
          ((along (step env) (returnedIn p) World.initial as).map (fun out => out.attempts)).sum ∧
        (w.procs p).relayLatencyCount = (w.procs p).relayAttemptsTotal) := by
  obtain ⟨hattempts, hsuccesses, hlatency⟩ := effects_counted h p
  refine ⟨?_, hattempts, hsuccesses, ?_, ?_⟩
  · intro hcounted source
    refine ((received_run h p source).balance ?_).symm
    intro r
    unfold Handler.uncounted
    split
    · next i hh =>
      apply if_neg
      intro h'
      obtain ⟨hpid, -⟩ := h'
      exact hcounted r i hh hpid
    · rfl
  · rw [hsuccesses, successes_run h p]
  · intro hspares hanswer hidle
    have hempty : ∀ t, w.inCall Position.posts p t = 0 ∧ w.inCall Position.answers p t = 0 := by
      intro t
      cases hjob : w.jobAt p t with
      | none => exact ⟨World.inCall_none hjob, World.inCall_none hjob⟩
      | some j =>
        obtain ⟨q, job, pos⟩ := j
        rw [World.inCall_some hjob, World.inCall_some hjob]
        exact Position.idle_posts (hidle t q job pos hjob)
    have hposts := (measured_run measures_posts h hspares hanswer).balance (fun t => (hempty t).1)
    have hanswers := (measured_run measures_answers h hspares hanswer).balance (fun t => (hempty t).2)
    refine ⟨hattempts.trans hposts, ?_⟩
    calc (w.procs p).relayLatencyCount = os.countP (Obs.jobShows p Effect.isAnswer) := hlatency
      _ = ((along (step env) (returnedIn p) World.initial as).map (fun out => out.attempts)).sum := hanswers
      _ = os.countP (Obs.jobShows p Effect.isPost) := hposts.symm
      _ = (w.procs p).relayAttemptsTotal := hattempts.symm

end

/-! ## Two runs -/

/-- A POST has ended in neither a response nor an `httpx.HTTPError`. -/
def Obs.raises : Obs → Bool
  | .job _ _ _ (.answered (.raised _)) => true
  | _ => false

/-- What the runs below are checked for. -/
structure MeterView where
  others : Bool
  answered : Bool
  raised : Bool
  idle : Bool
  received : Nat
  attempts : Nat
  latency : Nat
  returned : List Nat
  deriving DecidableEq

def meterView (as : List Act) : Option MeterView :=
  (exec (step sampleEnv) World.initial as).map (fun r => {
    others := r.2.all (fun o => o.request == none || o.request == some 1)
    answered := (r.1.handlers 1).response?.isSome
    raised := r.2.any Obs.raises
    idle := (List.range (r.1.procs 0).dispatcher.nextTask).all (fun t => (r.1.jobAt 0 t).isNone)
    received := (r.1.procs 0).eventsReceivedTotal "demo"
    attempts := (r.1.procs 0).relayAttemptsTotal
    latency := (r.1.procs 0).relayLatencyCount
    returned := (along (step sampleEnv) (returnedIn 0) World.initial as).map (fun out => out.attempts) })

/-- A view that shows request 1 answered and nothing else in progress. -/
theorem meterView_quiet {as : List Act} {v : MeterView} (h : meterView as = some v)
    (hv : (v.others && v.answered && !v.raised && v.idle) = true) :
    ∃ w os, exec (step sampleEnv) World.initial as = some (w, os) ∧
      (∀ r i, w.handlers r ≠ .active i .counting) ∧
      (∀ t id exc, .job 0 t id (.answered (.raised exc)) ∉ os) ∧
      (∀ t q job pos, w.jobAt 0 t = some (q, job, pos) → ¬ pos.InProgress) ∧
      (w.procs 0).eventsReceivedTotal "demo" = v.received ∧ (w.procs 0).relayAttemptsTotal = v.attempts ∧
      (w.procs 0).relayLatencyCount = v.latency ∧
      (along (step sampleEnv) (returnedIn 0) World.initial as).map (fun out => out.attempts) = v.returned := by
  obtain ⟨⟨w, os⟩, hexec, rfl⟩ := Option.map_eq_some_iff.mp h
  simp only [Bool.and_eq_true, Bool.not_eq_true'] at hv
  obtain ⟨⟨⟨hothers, hanswered⟩, hraised⟩, hidle⟩ := hv
  have hrun := Run.of_exec hexec
  refine ⟨w, os, hexec, ?_, ?_, ?_, rfl, rfl, rfl, rfl⟩
  · intro r i hh
    have hmem := inserted_of_active hrun hh Phase.noConfusion Phase.noConfusion
    have hr := List.all_eq_true.mp hothers _ hmem
    obtain rfl : r = 1 := by simpa [Obs.request] using hr
    rw [hh] at hanswered
    cases hanswered
  · intro t id exc hmem
    rw [List.any_eq_false] at hraised
    exact hraised _ hmem rfl
  · intro t q job pos hjob
    by_cases ht : t < (w.procs 0).dispatcher.nextTask
    · have hnone := List.all_eq_true.mp hidle t (List.mem_range.mpr ht)
      rw [hjob] at hnone
      cases hnone
    · have hended := (workers_run hrun 0).unborn t (Nat.le_of_not_lt ht)
      rw [World.jobAt, Dispatcher.jobAt_eq_some, hended] at hjob
      cases hjob

/-- A delivery is received, attempted, timed and returned once. -/
theorem metrics_balance_delivered :
    ∃ w os, exec (step sampleEnv) World.initial (acceptActs ++ deliverActs) = some (w, os) ∧
      (w.procs 0).relayAttemptsTotal = 1 ∧
      (along (step sampleEnv) (insertedIn 0 "demo") World.initial (acceptActs ++ deliverActs)).length = 1 ∧
      ((along (step sampleEnv) (returnedIn 0) World.initial (acceptActs ++ deliverActs)).map
        (fun out => out.attempts)).sum = 1 ∧
      (w.procs 0).relayLatencyCount = 1 := by
  have hview : meterView (acceptActs ++ deliverActs) = some {
      others := true, answered := true, raised := false, idle := true, received := 1, attempts := 1,
      latency := 1, returned := [1] } := by
    decide +kernel
  obtain ⟨w, os, hexec, hcounted, hanswer, hidle, hreceived, hattempts, -, -⟩ := meterView_quiet hview rfl
  obtain ⟨hinserted, -, -, -, hbalance⟩ := metrics_balance (Run.of_exec hexec) 0
  have hspares : Meets (step sampleEnv) (SparesCalls 0) World.initial (acceptActs ++ deliverActs) := by
    apply Meets.of_mem
    intro a ha t u q job pos hcancel
    subst hcancel
    simp [acceptActs, deliverActs] at ha
  obtain ⟨hsum, hlatency⟩ := hbalance hspares hanswer hidle
  refine ⟨w, os, hexec, hattempts, ?_, ?_, ?_⟩
  · rw [← hinserted (fun r i hh => absurd hh (hcounted r i)) "demo"]
    exact hreceived
  · rw [← hsum]
    exact hattempts
  · rw [hlatency]
    exact hattempts

/-- A worker is stopped while it waits for its second attempt. -/
def cancelledActs : List Act :=
  acceptActs ++ [.begin 0 0, .take 0 0, .work 0 0 .call, .work 0 0 (.resolved (.addresses ["93.184.216.34"])),
    .work 0 0 (.post (sampleDraws 1 40).now ["93.184.216.34"] (some "93.184.216.34")),
    .work 0 0 (.answered (.response 500)), .shutdown 0, .cancelled 0 0]

/-- An attempt of a call that is cancelled is counted, and returned by no call. -/
theorem cancelled_attempt_uncounted :
    ∃ w os, exec (step sampleEnv) World.initial cancelledActs = some (w, os) ∧
      (∀ r i, w.handlers r ≠ .active i .counting) ∧
      (∀ t id exc, .job 0 t id (.answered (.raised exc)) ∉ os) ∧
      (∀ t q job pos, w.jobAt 0 t = some (q, job, pos) → ¬ pos.InProgress) ∧
      (w.procs 0).relayAttemptsTotal = 1 ∧
      ((along (step sampleEnv) (returnedIn 0) World.initial cancelledActs).map (fun out => out.attempts)).sum =
        0 := by
  have hview : meterView cancelledActs = some {
      others := true, answered := true, raised := false, idle := true, received := 1, attempts := 1,
      latency := 1, returned := [] } := by
    decide +kernel
  obtain ⟨w, os, hexec, hcounted, hanswer, hidle, -, hattempts, -, hreturned⟩ := meterView_quiet hview rfl
  exact ⟨w, os, hexec, hcounted, hanswer, hidle, hattempts, by rw [hreturned]; rfl⟩

end WebhookRelay
