import WebhookRelay.Draining
import WebhookRelay.Forecast
import WebhookRelay.Metrics

/-
  Schedules. Which worker takes which job, and how the workers of all processes
  take turns, is up to the event loops and the database. None of it shows: when
  the surroundings answer each job according to where it stands, two complete
  schedules of the background work leave the same rows, have made the same POSTs
  in the same order for each event, and show the same counters. Only the clock
  readings of the attempts may differ, and with them one column.

  Each event is a component of a `Forecast`: what its relay is still going to do
  follows from the job and the position it stands at.
-/
namespace WebhookRelay

open Py Transition

/-! ## Without the clock -/

/-- The moment that stands for every reading of the clock. -/
def epoch : Moment := ⟨0, by decide⟩

def undated (d : Option Datetime) : Option Datetime := d.map (fun _ => .ofUtc epoch)

def LoopVars.timeless (vars : LoopVars) : LoopVars :=
  { vars with lastAttemptAt := undated vars.lastAttemptAt }

def RelayOutcome.timeless (out : RelayOutcome) : RelayOutcome :=
  { out with lastAttemptAt := undated out.lastAttemptAt }

def Position.timeless : Position → Position
  | .attempt n vars => .attempt n vars.timeless
  | .inFlight n vars => .inFlight n vars.timeless
  | .persist out => .persist out.timeless
  | pos => pos

def Input.timeless : Input → Input
  | .post _ dns peer => .post epoch dns peer
  | input => input

def Effect.timeless : Effect → Effect
  | .recorded out => .recorded out.timeless
  | eff => eff

def Event.timeless (row : Event) : Event :=
  { row with relayLastAttemptAt := undated row.relayLastAttemptAt }

section

variable {env : Env} {client : Bool} {job : RelayJob} {pos pos' : Position} {input : Input} {eff : Effect}

theorem afterResolution_timeless (env : Env) (client : Bool) (job : RelayJob) (ips : List String) :
    (afterResolution env client job ips).timeless = afterResolution env client job ips := by
  rcases afterResolution_cases env client job ips with ⟨_, -, h⟩ | ⟨out, hs, h⟩ | ⟨-, _, h⟩ | ⟨-, h⟩ <;> rw [h]
  · rfl
  · obtain ⟨reason, -, rfl⟩ := screenIps_skips hs
    rfl
  · rfl
  · rfl

theorem afterFailure_timeless (n : Nat) (vars : LoopVars) :
    (afterFailure n vars).timeless = afterFailure n vars.timeless := by
  unfold afterFailure
  split <;> rfl

theorem afterPost_timeless (n : Nat) (vars : LoopVars) (res : PostResult) :
    (afterPost n vars res).timeless = afterPost n vars.timeless res := by
  cases res with
  | response statusCode =>
    simp only [afterPost]
    split
    · rfl
    · exact afterFailure_timeless ..
  | timeoutException _ | connectError _ | httpError _ => exact afterFailure_timeless ..
  | raised _ => rfl

/-- No step of a job depends on the clock. -/
theorem Turn.timeless (h : Turn env client job pos input pos' eff) :
    Turn env client job pos.timeless input.timeless pos'.timeless eff.timeless := by
  cases h with
  | unparsed hp => exact .unparsed hp
  | @skipped out hp =>
    obtain ⟨reason, -, rfl⟩ := preflightPolicy_skips hp
    exact .skipped hp
  | literal hp hl =>
    rw [afterResolution_timeless]
    exact .literal hp hl
  | named hp hl => exact .named hp hl
  | resolved =>
    rw [afterResolution_timeless]
    exact .resolved
  | gaierror => exact .gaierror
  | unresolved => exact .unresolved
  | posted hp => exact .posted hp
  | answered =>
    rw [afterPost_timeless]
    exact .answered
  | recorded => exact .recorded

/-- A step is determined by what the job is resumed with. -/
theorem Turn.advance_eq (h : Turn env client job pos input pos' eff) :
    advance env client job pos input = some (pos', eff) := by
  cases h with
  | unparsed hp => simp only [advance, hp]
  | skipped hp => simp only [advance, hp]
  | literal hp hl => simp only [advance, hp, if_pos hl]
  | named hp hl => simp only [advance, hp, if_neg hl]
  | posted hp => simp only [advance, if_pos hp]
  | resolved | gaierror | unresolved | answered | recorded => rfl

theorem Position.ended_timeless (pos : Position) : pos.timeless.ended? = pos.ended? := by
  cases pos <;> rfl

end

/-! ## What a job does -/

/-- What the surroundings resume a job with, by where it stands. -/
abbrev Script := RelayJob → Position → Input

/-- What a job of a process with a client does from a position on. -/
inductive Plays (env : Env) (script : Script) (job : RelayJob) : Position → List Effect → Prop where
  | stop {pos : Position} (h : advance env true job pos (script job pos) = none) : Plays env script job pos []
  | turn {pos pos' : Position} {eff : Effect} {tr : List Effect}
      (h : advance env true job pos (script job pos) = some (pos', eff)) (htr : Plays env script job pos' tr) :
      Plays env script job pos (eff :: tr)

section

variable {env : Env} {script : Script} {job : RelayJob} {pos : Position} {tr tr' : List Effect}

theorem Plays.unique (h : Plays env script job pos tr) (h' : Plays env script job pos tr') : tr = tr' := by
  induction h generalizing tr' with
  | stop hnone =>
    cases h' with
    | stop _ => rfl
    | turn hsome _ =>
      rw [hnone] at hsome
      cases hsome
  | turn hsome _ ih =>
    cases h' with
    | stop hnone =>
      rw [hnone] at hsome
      cases hsome
    | turn hsome' htr =>
      rw [hsome] at hsome'
      cases hsome'
      rw [ih htr]

/-- A job that has ended does nothing more. -/
theorem Plays.ended (he : pos.ended? ≠ none) : Plays env script job pos [] := by
  apply Plays.stop
  cases pos with
  | returned | raised _ => rfl
  | start | resolving | attempt _ _ | inFlight _ _ | persist _ => exact absurd rfl he

end

/-! ## What an event is still going to do -/

/-- What an observation shows of the code of a job: its event, its process, and
the effect without the clock. -/
def Obs.deed (o : Obs) : Option (String × Nat × Effect) :=
  match o with
  | .job p _ id _ => (o.effect id).map (fun eff => (id, p, eff.timeless))
  | _ => none

/-- What the relay of an event does from now on, and in which process, if no
request, startup or shutdown comes in between: it waits in the queue that the
workers serve, it runs, or nothing is left. -/
inductive Ahead (env : Env) (script : Script) (w : World) (id : String) : List (Nat × Effect) → Prop where
  | waiting {p q : Nat} {job : RelayJob} {tr : List Effect} (hitem : job ∈ w.itemsAt p q)
      (hq : (w.procs p).dispatcher.dispatchQueue = some q) (hid : job.eventId = id)
      (h : Plays env script job .start tr) : Ahead env script w id (tr.map (Prod.mk p))
  | running {p t q : Nat} {job : RelayJob} {pos : Position} {tr : List Effect}
      (hjob : w.jobAt p t = some (q, job, pos)) (hlive : ((w.procs p).dispatcher.tasks t).cancelled = false)
      (hid : job.eventId = id) (h : Plays env script job pos.timeless tr) : Ahead env script w id (tr.map (Prod.mk p))
  | idle
      (hwaiting : ∀ p q job, job ∈ w.itemsAt p q → (w.procs p).dispatcher.dispatchQueue = some q → job.eventId ≠ id)
      (hrunning : ∀ p t q job pos, w.jobAt p t = some (q, job, pos) →
        ((w.procs p).dispatcher.tasks t).cancelled = false → pos.ended? = none → job.eventId ≠ id) :
      Ahead env script w id []

/-- What a step resumes a job with, and where the job stands. -/
def resumed (w : World) (a : Act) (_ : Obs) (_ : World) : Option (RelayJob × Position × Input) :=
  match a with
  | .work p t input => (w.jobAt p t).map (fun j => (j.2.1, j.2.2, input))
  | _ => none

section

variable {env : Env} {script : Script} {w w' : World} {a : Act} {o : Obs} {as : List Act} {os : List Obs} {id : String}

theorem part_deed_none (h : o.effect id = none) : part id o.deed.toList = [] := by
  unfold Obs.deed
  split
  · next p t id' eff =>
    cases he : Obs.effect id' (.job p t id' eff) with
    | none => rfl
    | some eff' =>
      have hne : id' ≠ id := by
        rintro rfl
        rw [h] at he
        cases he
      exact part_cons_other hne _
  · rfl

theorem part_deed_some {p t : Nat} {eff : Effect} (h : Obs.effect id (.job p t id eff) = some eff) :
    part id (Obs.deed (.job p t id eff)).toList = [(p, eff.timeless)] := by
  simp only [Obs.deed, h, Option.map_some, Option.toList_some]
  exact part_cons_self _

/-- Only a job's own task shows its effects. -/
theorem effect_elsewhere (h : Run (step env) World.initial as os w) (hs : step env w a = some (w', o)) {p t q : Nat}
    {job : RelayJob} {pos : Position} (hjob : w.jobAt p t = some (q, job, pos)) (ho : ∀ id eff, o ≠ .job p t id eff) :
    o.effect job.eventId = none := by
  have howned := owned_run h
  by_contra hne
  obtain ⟨eff, heff⟩ := Option.ne_none_iff_exists'.mp hne
  obtain ⟨p', t', q', job', pos', pos'', input, hold, hid, -, -, ht, rfl, -⟩ :=
    effect_turned (Move.of_step hs) (workers_run h) heff
  have hst := howned.running p' t' q' job' pos' hold
  rw [hid, howned.running p t q job pos hjob] at hst
  rcases runningStage_cases p' q' t' pos' with ⟨hpos, -⟩ | ⟨-, hc'⟩
  · exact ht.pos_ne hpos
  · rcases runningStage_cases p q t pos with ⟨-, hc⟩ | ⟨-, hc⟩ <;> rw [hc, hc'] at hst
    · cases hst
    · cases hst
      exact ho _ _ rfl

/-- A relay does not wait and run. -/
theorem Owned.item_apart (ho : Owned w os) {p q p' t' q' : Nat} {job job' : RelayJob} {pos : Position}
    (hitem : job ∈ w.itemsAt p q) (hjob : w.jobAt p' t' = some (q', job', pos)) : job.eventId ≠ job'.eventId := by
  intro heq
  have hst := ho.queued p q job hitem
  rw [heq, ho.running p' t' q' job' pos hjob] at hst
  rcases runningStage_cases p' q' t' pos with ⟨-, hc⟩ | ⟨-, hc⟩ <;> rw [hc] at hst <;> cases hst

/-- A waiting job has no effects. -/
theorem effect_waiting (h : Run (step env) World.initial as os w) (hs : step env w a = some (w', o)) {p q : Nat}
    {job : RelayJob} (hitem : job ∈ w.itemsAt p q) : o.effect job.eventId = none := by
  by_contra hne
  obtain ⟨eff, heff⟩ := Option.ne_none_iff_exists'.mp hne
  obtain ⟨p', t', q', job', pos', pos'', input, hold, hid, -⟩ := effect_turned (Move.of_step hs) (workers_run h) heff
  exact (owned_run h).item_apart hitem hold hid.symm

/-! ## Steps of the workers -/

/-- The steps of workers, of any process. -/
def Act.Background (a : Act) : Prop := ∃ p, a.ofWorker p

/-- A worker's step leaves the dispatcher's queue where it is, cancels nobody,
and brings in no job. -/
theorem Move.background (hm : Move env w a w' o) (ha : a.Background) (p : Nat) :
    (w'.procs p).dispatcher.dispatchQueue = (w.procs p).dispatcher.dispatchQueue ∧
      (∀ t, ((w'.procs p).dispatcher.tasks t).cancelled = ((w.procs p).dispatcher.tasks t).cancelled) ∧
      ∀ r q job, o ≠ .enqueued r p q job := by
  obtain ⟨p₀, ha⟩ := ha
  refine ⟨?_, ?_, ?_⟩
  · rcases hm.globals p with ⟨h, -⟩ | ⟨rfl, -⟩ | ⟨rfl, -⟩
    · exact h
    · exact ha.elim
    · exact ha.elim
  · intro t
    have at_p : ∀ p' P, (∀ t, ((P : Proc).dispatcher.tasks t).cancelled = ((w.procs p').dispatcher.tasks t).cancelled) →
        (((w.setProc p' P).procs p).dispatcher.tasks t).cancelled = ((w.procs p).dispatcher.tasks t).cancelled := by
      intro p' P hP
      rcases w.setProc_cases p p' P with ⟨rfl, h⟩ | h <;> rw [h]
      exact hP t
    have moved : ∀ (d : Dispatcher RelayJob Position) t' s u,
        ((d.setState t' s).tasks u).cancelled = (d.tasks u).cancelled := by
      intro d t' s u
      rw [Dispatcher.setState_tasks]
      by_cases hu : u = t'
      · subst hu
        rw [Function.update_self]
      · rw [Function.update_of_ne hu]
    have done : ∀ {d d' : Dispatcher RelayJob Position} {t' : Nat} {e : JobEnd}, d.jobDone t' e = some d' →
        ∀ u, (d'.tasks u).cancelled = (d.tasks u).cancelled := by
      intro d d' t' e hd u
      obtain ⟨q, job, pos, -, ⟨-, rfl⟩ | ⟨-, rfl⟩⟩ := Dispatcher.jobDone_some hd
      · exact moved ..
      · exact moved ..
    cases hm with
    | began | beganLate | taken | recorded | idled => exact at_p _ _ (moved _ _ _)
    | worked =>
      apply at_p
      rw [Proc.count_dispatcher]
      exact moved _ _ _
    | finished _ _ _ hd => exact at_p _ _ (done hd)
    | dropped _ _ hd => exact at_p _ _ (done hd)
    | started | stopped | closed | rejected | built | inserted | conflict | lostInsert | replayed | lostLookup
    | countedRelay | countedOnly | enqueued | refused | uninitialised | marked | deleted => exact ha.elim
  · rintro r q job rfl
    cases hm
    exact ha

/-- A job that waits goes on waiting, or is taken by a worker. -/
theorem Move.item_forth (hm : Move env w a w' o) (ha : a.Background) {p q : Nat} {job : RelayJob}
    (h : job ∈ w.itemsAt p q) : job ∈ w'.itemsAt p q ∨ ∃ t, w'.jobAt p t = some (q, job, .start) ∧
      ((w.procs p).dispatcher.tasks t).cancelled = false := by
  obtain ⟨p₀, ha⟩ := ha
  have kept : w'.itemsAt = w.itemsAt → job ∈ w'.itemsAt p q ∨ ∃ t, w'.jobAt p t = some (q, job, .start) ∧
      ((w.procs p).dispatcher.tasks t).cancelled = false := by
    intro hi
    rw [hi]
    exact .inl h
  cases hm with
  | began | beganLate | recorded | idled => exact kept (World.itemsAt_kept rfl)
  | worked => exact kept (World.itemsAt_kept (by rw [Proc.count_dispatcher]; rfl))
  | finished _ _ _ hd => exact kept (World.itemsAt_kept (Dispatcher.jobDone_views hd).1)
  | dropped _ _ hd => exact kept (World.itemsAt_kept (Dispatcher.jobDone_views hd).1)
  | @taken p' t' q' job' rest hs hc hitems =>
    have hi : (w.setDispatcher p' (((w.procs p').dispatcher.setQueue q'
        { (w.procs p').dispatcher.queues q' with items := rest }).setState t'
          (.running q' job' .start))).itemsAt =
        Function.update w.itemsAt p' (Function.update (w.itemsAt p') q' rest) := by
      apply (World.itemsAt_setProc w p' _).trans
      exact congrArg _ (Dispatcher.itemsAt_setQueue (w.procs p').dispatcher q' _)
    rcases update_update_cases hi p q with ⟨rfl, rfl, hu⟩ | ⟨-, hu⟩
    · rw [World.itemsAt, Dispatcher.itemsAt, hitems] at h
      rcases List.mem_cons.mp h with rfl | h
      · refine .inr ⟨t', ?_, hc⟩
        rw [World.setDispatcher, World.jobAt_setProc, Function.update_self, Dispatcher.jobAt_setState,
          Function.update_self]
        rfl
      · rw [hu]
        exact .inl h
    · rw [hu]
      exact .inl h
  | started | stopped | closed | rejected | built | inserted | conflict | lostInsert | replayed | lostLookup
  | countedRelay | countedOnly | enqueued | refused | uninitialised | marked | deleted => exact ha.elim

/-! ## The forecast -/

/-- A relay that is over has nothing ahead. -/
theorem Ahead.nil {tr : List (Nat × Effect)} (h : Ahead env script w id tr)
    (hwaiting : ∀ p q job, job ∈ w.itemsAt p q → (w.procs p).dispatcher.dispatchQueue = some q → job.eventId ≠ id)
    (hrunning : ∀ p t q job pos, w.jobAt p t = some (q, job, pos) →
      ((w.procs p).dispatcher.tasks t).cancelled = false → pos.ended? = none → job.eventId ≠ id) : tr = [] := by
  cases h with
  | waiting hitem hq hid _ => exact absurd hid (hwaiting _ _ _ hitem hq)
  | @running p t q job pos tr hjob hlive hid hplay =>
    have hended : pos.timeless.ended? ≠ none := by
      rw [Position.ended_timeless]
      intro hnone
      exact hrunning p t q job pos hjob hlive hnone hid
    rw [hplay.unique (.ended hended)]
    rfl
  | idle _ _ => rfl

/-- What is ahead of an event is one list: its relay is in one place. -/
theorem Ahead.unique (ho : Owned w os) {tr tr' : List (Nat × Effect)} (h : Ahead env script w id tr)
    (h' : Ahead env script w id tr') : tr = tr' := by
  cases h with
  | idle hwaiting hrunning => exact (h'.nil hwaiting hrunning).symm
  | @waiting p q job tr hitem hq hid hplay =>
    cases h' with
    | idle hwaiting hrunning => exact absurd hid (hwaiting p q job hitem hq)
    | running hjob' _ hid' _ => exact absurd (hid.trans hid'.symm) (ho.item_apart hitem hjob')
    | @waiting p' q' job' tr' hitem' _ hid' hplay' =>
      have hst := ho.queued p q job hitem
      rw [hid.trans hid'.symm, ho.queued p' q' job' hitem'] at hst
      cases hst
      obtain rfl := List.inj_on_of_nodup_map (ho.distinct p q) hitem hitem' (hid.trans hid'.symm)
      rw [hplay.unique hplay']
  | @running p t q job pos tr hjob hlive hid hplay =>
    cases h' with
    | idle hwaiting hrunning => exact (Ahead.running hjob hlive hid hplay).nil hwaiting hrunning
    | waiting hitem' _ hid' _ => exact absurd (hid'.trans hid.symm) (ho.item_apart hitem' hjob)
    | @running p' t' q' job' pos' tr' hjob' _ hid' hplay' =>
      have hst := ho.running p t q job pos hjob
      rw [hid.trans hid'.symm, ho.running p' t' q' job' pos' hjob'] at hst
      rcases runningStage_cases p q t pos with ⟨rfl, hc⟩ | ⟨-, hc⟩ <;>
        rcases runningStage_cases p' q' t' pos' with ⟨rfl, hc'⟩ | ⟨-, hc'⟩ <;> rw [hc, hc'] at hst
      · rw [hplay.unique (.ended nofun), hplay'.unique (.ended nofun)]
        rfl
      · cases hst
      · cases hst
      · cases hst
        rw [hjob] at hjob'
        cases hjob'
        rw [hplay.unique hplay']

/-- A step of a worker takes from what is ahead of its event what it shows. -/
theorem Ahead.back (h : Run (step env) World.initial as os w) (ha : a.Background) (hs : step env w a = some (w', o))
    (hscript : ∀ x, resumed w a o w' = some x → x.2.2.timeless = script x.1 x.2.1.timeless) {tr : List (Nat × Effect)}
    (hahead : Ahead env script w' id tr) : Ahead env script w id (part id o.deed.toList ++ tr) := by
  have hm := Move.of_step hs
  have hw := workers_run h
  -- the turn of a running job, followed by what it plays from there
  have turned : ∀ {p t q job pos pos' input eff tr}, w.jobAt p t = some (q, job, pos) → a = .work p t input →
      Turn env (w.procs p).client job pos input pos' eff → Plays env script job pos'.timeless tr →
      Plays env script job pos.timeless (eff.timeless :: tr) := by
    intro p t q job pos pos' input eff tr hold hwork ht hplay
    have hgiven : input.timeless = script job pos.timeless := by
      apply hscript (job, pos, input)
      simp only [resumed, hwork, hold, Option.map_some]
    rw [client_of_job h hold] at ht
    have hadvance := ht.timeless.advance_eq
    rw [hgiven] at hadvance
    exact .turn hadvance hplay
  cases hahead with
  | @waiting p q job tr hitem hq hid hplay =>
    obtain ⟨hqueue, -, hnew⟩ := hm.background ha p
    have hbefore : job ∈ w.itemsAt p q := by
      rcases hm.items_back hw hitem with hold | ⟨r, ho⟩
      · exact hold
      · exact absurd ho (hnew r q job)
    have hnone := effect_waiting h hs hbefore
    rw [hid] at hnone
    rw [part_deed_none hnone]
    exact .waiting hbefore (hqueue ▸ hq) hid hplay
  | @running p t q job pos tr hjob hlive hid hplay =>
    obtain ⟨hqueue, hcancelled, -⟩ := hm.background ha p
    have hbefore := hlive
    rw [hcancelled] at hbefore
    cases hm.jobShift hw p t with
    | same hnew hother =>
      rw [hnew] at hjob
      have hnone := effect_elsewhere h hs hjob hother
      rw [hid] at hnone
      rw [part_deed_none hnone]
      exact .running hjob hbefore hid hplay
    | @taken q' job' _ hitem ho hnew =>
      have hstate := Dispatcher.jobAt_eq_some.mp hjob
      rw [hnew] at hjob
      cases hjob
      -- the worker serves the queue it took the job from
      have hq := (workers_run (h.snoc hs) p).serving t q hlive (by rw [Dispatcher.serves, hstate])
      rw [ho, part_deed_none rfl]
      exact .waiting hitem (hqueue ▸ hq) hid hplay
    | @turned q' job' pos₀ pos' input eff hold hwork _ ht ho hnew =>
      rw [hnew] at hjob
      cases hjob
      have heff := ht.effect p t job.eventId
      rw [← hid, ho, part_deed_some heff]
      exact .running hold hbefore rfl (turned hold hwork ht hplay)
    | finished _ _ _ hnew | dropped _ _ _ hnew =>
      rw [hnew] at hjob
      cases hjob
  | idle hwaiting hrunning =>
    cases heff : o.effect id with
    | some eff =>
      -- the last step of the event's job
      obtain ⟨p, t, q, job, pos, pos', input, hold, rfl, hwork, hlive, ht, rfl, hnew⟩ := effect_turned hm hw heff
      have hended : pos'.timeless.ended? ≠ none := by
        rw [Position.ended_timeless]
        intro hnone
        refine hrunning p t q job pos' hnew ?_ hnone rfl
        rw [(hm.background ha p).2.1]
        exact hlive
      rw [part_deed_some heff]
      exact .running hold hlive rfl (turned hold hwork ht (.ended hended))
    | none =>
      rw [part_deed_none heff]
      apply Ahead.idle
      · intro p q job hitem hq hid
        obtain ⟨hqueue, hcancelled, -⟩ := hm.background ha p
        rcases hm.item_forth ha hitem with hstill | ⟨t, hjob, hlive⟩
        · exact hwaiting p q job hstill (hqueue.trans hq) hid
        · exact hrunning p t q job .start hjob ((hcancelled t).trans hlive) rfl hid
      · intro p t q job pos hold hlive hopen hid
        have hcancelled := (hm.background ha p).2.1
        cases hm.jobShift hw p t with
        | same hnew _ => exact hrunning p t q job pos (hnew.trans hold) ((hcancelled t).trans hlive) hopen hid
        | taken hfree _ _ _ =>
          rw [hold] at hfree
          cases hfree
        | turned hold' _ _ ht ho _ =>
          rw [hold] at hold'
          cases hold'
          rw [← hid, ho, ht.effect] at heff
          cases heff
        | finished hold' he _ _ =>
          rw [hold] at hold'
          cases hold'
          rw [hopen] at he
          cases he
        | dropped hold' hc _ _ =>
          rw [hlive] at hc
          cases hc

/-- The background work of a run: only workers take steps, and the surroundings
answer each job as the script says, whatever the clock shows. -/
structure Background (env : Env) (script : Script) (w : World) (as : List Act) : Prop where
  workers : ∀ a ∈ as, a.Background
  answers : ∀ x ∈ along (step env) resumed w as, x.2.2.timeless = script x.1 x.2.1.timeless

/-- The condition of `Ahead.back` on a step. -/
def Steered (env : Env) (script : Script) (w : World) (a : Act) : Prop :=
  a.Background ∧ ∀ w' o, step env w a = some (w', o) →
    ∀ x, resumed w a o w' = some x → x.2.2.timeless = script x.1 x.2.1.timeless

theorem Background.meets (h : Background env script w as) : Meets (step env) (Steered env script) w as := by
  intro al a ar ol t has hrun
  refine ⟨h.workers a (has ▸ List.mem_append_right al List.mem_cons_self), ?_⟩
  exact Meets.of_along h.answers al a ar ol t has hrun

theorem forecast (env : Env) (script : Script) :
    Forecast (step env) (Reachable env) (Steered env script) Obs.deed (Ahead env script) where
  keeps := by
    intro w a w' o h hs
    obtain ⟨as, os, hrun⟩ := h
    exact ⟨as ++ [a], os ++ [o], hrun.snoc hs⟩
  back := by
    intro w a w' o id tr h hsteered hs hahead
    obtain ⟨as, os, hrun⟩ := h
    exact hahead.back hrun hsteered.1 hs (hsteered.2 w' o hs)
  unique := by
    intro w id tr tr' h hahead hahead'
    obtain ⟨as, os, hrun⟩ := h
    exact hahead.unique (owned_run hrun) hahead'

/-- At rest nothing is ahead. -/
theorem rest_over (hrest : ∀ p, (w.procs p).dispatcher.AtRest) (id : String) : Ahead env script w id [] := by
  apply Ahead.idle
  · intro p q job hitem hq
    have hempty := (hrest p).waiting
    rw [Dispatcher.waitingJobs, hq] at hempty
    rw [World.itemsAt, Dispatcher.itemsAt, List.length_eq_zero_iff.mp hempty] at hitem
    cases hitem
  · intro p t q job pos hjob
    have hstate := Dispatcher.jobAt_eq_some.mp hjob
    rcases (hrest p).idle t with hended | ⟨-, q', hwaiting, -⟩
    · rw [hended] at hstate
      cases hstate
    · rw [hwaiting] at hstate
      cases hstate

/-- The deeds of an event are its effects, clock aside. -/
theorem part_deeds (id : String) (os : List Obs) :
    (part id (os.filterMap Obs.deed)).map Prod.snd = (effects id os).map Effect.timeless := by
  induction os using List.reverseRecOn with
  | nil => rfl
  | append_singleton os o ih =>
    rw [readings_snoc, part_append, List.map_append, effects_snoc, List.map_append, ih]
    congr 1
    cases heff : o.effect id with
    | none =>
      rw [part_deed_none heff]
      rfl
    | some eff =>
      obtain ⟨p, t, rfl, -⟩ := Obs.effect_some heff
      rw [part_deed_some heff]
      rfl

/-! ## What the deeds leave -/

/-- A row after an effect of its event's job. -/
def Event.told (env : Env) (row : Event) : Effect → Event
  | .recorded out => { row with toRelayColumns := (relayUpdateValues out).stored env.dropsTz }
  | _ => row

theorem Event.told_intake (env : Env) (row : Event) (effs : List Effect) :
    (effs.foldl (Event.told env) row).toIntakeColumns = row.toIntakeColumns := by
  induction effs generalizing row with
  | nil => rfl
  | cons eff effs ih =>
    rw [List.foldl_cons, ih]
    cases eff <;> rfl

/-- The rows after a step of a worker. -/
theorem Move.rows_told (hm : Move env w a w' o) (ha : a.Background) :
    w'.store.rows = w.store.rows.map (fun row => (o.effect row.id).toList.foldl (Event.told env) row) := by
  obtain ⟨p₀, ha⟩ := ha
  have silent : (∀ id, o.effect id = none) →
      w.store.rows = w.store.rows.map (fun row => (o.effect row.id).toList.foldl (Event.told env) row) := by
    intro hnone
    simp only [hnone, Option.toList_none, List.foldl_nil, List.map_id']
  cases hm with
  | began | beganLate | taken | finished | dropped | idled => exact silent (fun _ => rfl)
  | @worked p t q job pos pos' input eff _ _ _ hr =>
    symm
    apply List.map_id''
    intro row
    cases heff : Obs.effect row.id (.job p t job.eventId eff) with
    | none => rfl
    | some eff' =>
      obtain ⟨p', t', heq, -⟩ := Obs.effect_some heff
      injection heq with _ _ _ heq
      subst heq
      cases eff with
      | recorded out => exact absurd rfl (hr out)
      | taken | called | resolved _ | posted _ | answered _ | finished | dropped => rfl
  | @recorded p t q job out _ _ =>
    apply List.map_congr_left
    intro row _
    have heff : Obs.effect row.id (.job p t job.eventId (.recorded out)) =
        if job.eventId = row.id then some (.recorded out) else none := rfl
    rw [heff]
    by_cases hid : row.id = job.eventId
    · rw [if_pos hid.symm, Store.setRelay, if_pos hid]
      rfl
    · rw [if_neg (Ne.symm hid), Store.setRelay, if_neg hid]
      rfl
  | started | stopped | closed | rejected | built | inserted | conflict | lostInsert | replayed | lostLookup
  | countedRelay | countedOnly | enqueued | refused | uninitialised | marked | deleted => exact ha.elim

/-- The rows after background work: each as its event's effects have left it. -/
theorem rows_told (h : Run (step env) w as os w') (ha : ∀ a ∈ as, a.Background) :
    w'.store.rows = w.store.rows.map (fun row => (effects row.id os).foldl (Event.told env) row) := by
  induction h with
  | nil => exact (List.map_id _).symm
  | @snoc u v as os a o hrun hs ih =>
    have hlast := (Move.of_step hs).rows_told (ha a (List.mem_append_right _ (List.mem_singleton_self a)))
    rw [hlast, ih (fun b hb => ha b (List.mem_append_left _ hb)), List.map_map]
    apply List.map_congr_left
    intro row _
    have hid := congrArg IntakeColumns.id (Event.told_intake env row (effects row.id os))
    simp only [Function.comp_apply]
    rw [hid, effects_snoc, List.foldl_append]

/-- An effect on a row without the clock. -/
def Event.noted (row : Event) : Effect → Event
  | .recorded out => applyRelayResult row out
  | _ => row

theorem Event.told_timeless (row : Event) (eff : Effect) :
    (row.told env eff).timeless = row.timeless.noted eff.timeless := by
  cases eff with
  | recorded out =>
    cases hlast : out.lastAttemptAt <;>
      simp [Event.told, Event.noted, Event.timeless, Effect.timeless, applyRelayResult, RelayColumns.stored,
        relayUpdateValues, RelayOutcome.timeless, undated, hlast]
  | taken | called | resolved _ | posted _ | answered _ | finished | dropped => rfl

theorem Event.foldl_timeless (row : Event) (effs : List Effect) :
    (effs.foldl (Event.told env) row).timeless = (effs.map Effect.timeless).foldl Event.noted row.timeless := by
  induction effs generalizing row with
  | nil => rfl
  | cons eff effs ih => rw [List.foldl_cons, ih, row.told_timeless, List.map_cons, List.foldl_cons]

/-- The counters of deeds agree with those of observations. -/
theorem shows_deed {p : Nat} {kind : Effect → Bool} (hkind : ∀ eff, kind eff.timeless = kind eff)
    (hquiet : ∀ eff, eff.Around → kind eff = false) (o : Obs) :
    o.jobShows p kind = (o.deed.map (fun x => x.2.1 == p && kind x.2.2)).getD false := by
  cases o with
  | job p' t id eff =>
    cases eff with
    | taken => simp [Obs.jobShows, Obs.deed, Obs.effect, hquiet .taken (.inl rfl)]
    | finished => simp [Obs.jobShows, Obs.deed, Obs.effect, hquiet .finished (.inr (.inl rfl))]
    | dropped => simp [Obs.jobShows, Obs.deed, Obs.effect, hquiet .dropped (.inr (.inr rfl))]
    | called | resolved _ | posted _ | answered _ | recorded _ => simp [Obs.jobShows, Obs.deed, Obs.effect, hkind]
  | started | stopped | closed | rejected | built | inserted | conflict | replayed | lost | counted | enqueued
  | refused | uninitialised | marked | began | idled | deleted => rfl

/-- A worker's step receives no event. -/
theorem Move.received_kept (hm : Move env w a w' o) (ha : a.Background) (p : Nat) :
    (w'.procs p).eventsReceivedTotal = (w.procs p).eventsReceivedTotal := by
  rw [(hm.counters p).received]
  obtain ⟨p₀, ha⟩ := ha
  cases hm with
  | began | beganLate | idled => rfl
  | taken | worked | recorded | finished | dropped => exact Proc.metered_job_received ..
  | started | stopped | closed | rejected | built | inserted | conflict | lostInsert | replayed | lostLookup
  | countedRelay | countedOnly | enqueued | refused | uninitialised | marked | deleted => exact ha.elim

theorem received_kept (h : Run (step env) w as os w') (ha : ∀ a ∈ as, a.Background) (p : Nat) :
    (w'.procs p).eventsReceivedTotal = (w.procs p).eventsReceivedTotal := by
  induction h with
  | nil => rfl
  | @snoc u v as os a o _ hs ih =>
    rw [(Move.of_step hs).received_kept (ha a (List.mem_append_right _ (List.mem_singleton_self a)))]
    exact ih (fun b hb => ha b (List.mem_append_left _ hb))

/-- **Schedules agree.** Two complete schedules of the background work of a
state, under the same answers, leave the same rows and counters and have made
the same effects for each event in the same order, the clock aside. -/
theorem schedules_agree (h : Run (step env) World.initial as os w) {as₁ as₂ : List Act} {os₁ os₂ : List Obs}
    {w₁ w₂ : World} (h₁ : Run (step env) w as₁ os₁ w₁) (h₂ : Run (step env) w as₂ os₂ w₂)
    (hb₁ : Background env script w as₁) (hb₂ : Background env script w as₂)
    (hrest₁ : ∀ p, (w₁.procs p).dispatcher.AtRest) (hrest₂ : ∀ p, (w₂.procs p).dispatcher.AtRest) :
    w₁.store.rows.map Event.timeless = w₂.store.rows.map Event.timeless ∧
      (∀ id, (effects id os₁).map Effect.timeless = (effects id os₂).map Effect.timeless) ∧
      ∀ p, (w₁.procs p).SameCounters (w₂.procs p) := by
  have hf := forecast env script
  have hreach : Reachable env w := ⟨as, os, h⟩
  have heffects : ∀ id, (effects id os₁).map Effect.timeless = (effects id os₂).map Effect.timeless := by
    intro id
    rw [← part_deeds, ← part_deeds]
    exact congrArg _ (hf.agree h₁ h₂ hreach hb₁.meets hb₂.meets (rest_over hrest₁ id) (rest_over hrest₂ id))
  have hperm := hf.perm h₁ h₂ hreach hb₁.meets hb₂.meets (rest_over hrest₁) (rest_over hrest₂)
  have counted : ∀ p kind, (∀ eff : Effect, kind eff.timeless = kind eff) →
      (∀ eff : Effect, eff.Around → kind eff = false) →
      os₁.countP (Obs.jobShows p kind) = os₂.countP (Obs.jobShows p kind) := by
    intro p kind hkind hquiet
    have hshows : Obs.jobShows p kind = fun o => (o.deed.map (fun x => x.2.1 == p && kind x.2.2)).getD false :=
      funext (shows_deed hkind hquiet)
    rw [hshows, ← List.countP_filterMap, ← List.countP_filterMap]
    exact hperm.countP_eq _
  refine ⟨?_, heffects, ?_⟩
  · rw [rows_told h₁ hb₁.workers, rows_told h₂ hb₂.workers, List.map_map, List.map_map]
    apply List.map_congr_left
    intro row _
    simp only [Function.comp_apply]
    rw [row.foldl_timeless, row.foldl_timeless, heffects]
  · intro p
    have hbefore := effects_counted (h.append h₁) p
    have hafter := effects_counted (h.append h₂) p
    simp only [List.countP_append] at hbefore hafter
    have post := counted p Effect.isPost (fun eff => by cases eff <;> rfl) (by rintro _ (rfl | rfl | rfl) <;> rfl)
    have success := counted p Effect.isSuccess (fun eff => by cases eff <;> rfl) (by rintro _ (rfl | rfl | rfl) <;> rfl)
    have answer := counted p Effect.isAnswer (fun eff => by cases eff <;> rfl) (by rintro _ (rfl | rfl | rfl) <;> rfl)
    refine ⟨?_, ?_, ?_, ?_⟩
    · rw [received_kept h₂ hb₂.workers, received_kept h₁ hb₁.workers]
    · rw [hafter.1, hbefore.1, post]
    · rw [hafter.2.1, hbefore.2.1, success]
    · rw [hafter.2.2, hbefore.2.2, answer]

end

/-! ## Two schedules -/

deriving instance DecidableEq for Input

/-- Without anything left to do a dispatcher is at rest. -/
theorem Dispatcher.WF.atRest_of_todo {d : Dispatcher RelayJob Position} (hwf : d.WF) (h : d.todo = 0) : d.AtRest := by
  simp only [Dispatcher.todo, jobSteps, Nat.add_eq_zero_iff] at h
  refine ⟨by omega, ?_⟩
  intro t
  refine .inl ?_
  by_contra hne
  have hzero := Finset.sum_eq_zero_iff.mp h.2 t (Finset.mem_range.mpr (hwf.born hne))
  cases hs : (d.tasks t).state with
  | ended => exact hne hs
  | created | waiting _ | running _ _ _ =>
    rw [hs] at hzero
    cases hzero

/-- A process that started no dispatcher and accepted no job is at rest. -/
theorem rest_untouched {env : Env} {w : World} {as : List Act} {os : List Obs}
    (h : Run (step env) World.initial as os w) {p : Nat} (haccepted : os.countP (Obs.acceptedBy p) = 0)
    (hstarted : os.countP (Obs.startedAt p) = 0) : (w.procs p).dispatcher.AtRest := by
  apply (workers_run h p).atRest_of_todo
  have htotal := (todo_potential env p).total h ⟨[], [], .nil⟩
  have hinitial : World.initial.todo p = 0 := rfl
  have hgain : worth (gainOf env p) os =
      jobSteps * os.countP (Obs.acceptedBy p) + 2 * env.workers p * os.countP (Obs.startedAt p) :=
    worth_prices _ _ _ _ os
  rw [hinitial, hgain, haccepted, hstarted] at htotal
  rw [World.todo] at htotal
  omega

/-- Whether a dispatcher is at rest, as computed. -/
def Dispatcher.resting (d : Dispatcher RelayJob Position) : Bool :=
  d.waitingJobs == 0 && (List.range d.nextTask).all (fun t =>
    match (d.tasks t).state with
    | .ended => true
    | .waiting q => !(d.tasks t).cancelled && d.dispatchQueue == some q
    | .created | .running _ _ _ => false)

theorem Dispatcher.WF.atRest_of_resting {d : Dispatcher RelayJob Position} (hwf : d.WF) (h : d.resting = true) :
    d.AtRest := by
  simp only [Dispatcher.resting, Bool.and_eq_true, beq_iff_eq, List.all_eq_true, List.mem_range] at h
  refine ⟨h.1, ?_⟩
  intro t
  by_cases hlt : t < d.nextTask
  · have ht := h.2 t hlt
    split at ht
    · next hs => exact .inl hs
    · next q hs =>
      simp only [Bool.and_eq_true, Bool.not_eq_true', beq_iff_eq] at ht
      exact .inr ⟨ht.1, q, hs, ht.2⟩
    · cases ht
    · cases ht
  · exact .inl (hwf.unborn t (Nat.not_lt.mp hlt))

/-- The sample settings with two workers and room for two jobs. -/
def pairEnv : Env :=
  { sampleEnv with
    settings := fun p => { sampleEnv.settings p with relayWorkerConcurrency := 2, relayQueueSize := 2 } }

/-- Two requests are accepted. -/
def pairActs : List Act :=
  [.startup 0, .request 0 1 (sampleRequest none "\x7b\"a\":1\x7d") (sampleDraws 1 10), .handler 1, .handler 1,
    .handler 1, .request 0 2 (sampleRequest none "\x7b\"b\":2\x7d") (sampleDraws 2 20), .handler 2, .handler 2,
    .handler 2]

/-- The first attempt of every job times out, the second succeeds. -/
def pairScript : Script := fun _ pos =>
  match pos with
  | .start | .returned | .raised _ => .call
  | .resolving => .resolved (.addresses ["93.184.216.34"])
  | .attempt _ _ => .post epoch ["93.184.216.34"] (some "93.184.216.34")
  | .inFlight 1 _ => .answered (.timeoutException "")
  | .inFlight _ _ => .answered (.response 200)
  | .persist _ => .persist

/-- A worker's turn with a job, from a moment on. -/
def turnActs (t now : Nat) : List Act :=
  [.take 0 t, .work 0 t .call, .work 0 t (.resolved (.addresses ["93.184.216.34"])),
    .work 0 t (.post (sampleDraws 1 now).now ["93.184.216.34"] (some "93.184.216.34")),
    .work 0 t (.answered (.timeoutException "")),
    .work 0 t (.post (sampleDraws 1 (now + 1)).now ["93.184.216.34"] (some "93.184.216.34")),
    .work 0 t (.answered (.response 200)), .work 0 t .persist, .finish 0 t]

/-- Both workers at once, one job each. -/
def wovenActs : List Act :=
  .begin 0 0 :: .begin 0 1 :: ((turnActs 0 40).zip (turnActs 1 50)).flatMap (fun x => [x.2, x.1])

/-- One worker does both jobs, one after the other. -/
def serialActs : List Act := .begin 0 0 :: .begin 0 1 :: (turnActs 0 60 ++ turnActs 0 70)

def answersOf (w : World) (as : List Act) : Bool :=
  (along (step pairEnv) resumed w as).all (fun x => x.2.2.timeless == pairScript x.1 x.2.1.timeless)

def onZero (os : List Obs) : Bool :=
  os.all (fun o => match o with | .started p | .enqueued _ p _ _ => p == 0 | _ => true)

theorem onZero_rest {w : World} {as : List Act} {os : List Obs} (h : Run (step pairEnv) World.initial as os w)
    (hzero : onZero os = true) (hrest : (w.procs 0).dispatcher.resting = true) (p : Nat) :
    (w.procs p).dispatcher.AtRest := by
  by_cases hp : p = 0
  · subst hp
    exact (workers_run h 0).atRest_of_resting hrest
  · -- no other process has started or accepted anything
    have hother : ∀ o ∈ os, ¬ Obs.acceptedBy p o = true ∧ ¬ Obs.startedAt p o = true := by
      intro o ho
      have hone := List.all_eq_true.mp hzero o ho
      cases o with
      | started p' =>
        simp only [beq_iff_eq] at hone
        simp [Obs.acceptedBy, Obs.startedAt, hone, Ne.symm hp]
      | enqueued r p' q job =>
        simp only [beq_iff_eq] at hone
        simp [Obs.acceptedBy, Obs.startedAt, hone, Ne.symm hp]
      | stopped | closed | rejected | built | inserted | conflict | replayed | lost | counted | refused
      | uninitialised | marked | began | job | idled | deleted => simp [Obs.acceptedBy, Obs.startedAt]
    exact rest_untouched h (List.countP_eq_zero.mpr (fun o ho => (hother o ho).1))
      (List.countP_eq_zero.mpr (fun o ho => (hother o ho).2))

theorem turnActs_background {a : Act} {t now : Nat} (h : a ∈ turnActs t now) : a.Background := by
  simp only [turnActs, List.mem_cons, List.not_mem_nil, or_false] at h
  rcases h with rfl | rfl | rfl | rfl | rfl | rfl | rfl | rfl | rfl <;> exact ⟨0, rfl⟩

/-- The two schedules of the two accepted jobs agree. -/
theorem schedules_agree_pair :
    ∃ w os w₁ os₁ w₂ os₂, exec (step pairEnv) World.initial pairActs = some (w, os) ∧
      exec (step pairEnv) w wovenActs = some (w₁, os₁) ∧ exec (step pairEnv) w serialActs = some (w₂, os₂) ∧
      w₁.store.rows.map (fun e => e.relayStatus) = [some "success", some "success"] ∧
      w₁.store.rows.map Event.timeless = w₂.store.rows.map Event.timeless ∧
      (w₁.procs 0).SameCounters (w₂.procs 0) := by
  have hcomputed : (exec (step pairEnv) World.initial pairActs).bind (fun r =>
      (exec (step pairEnv) r.1 wovenActs).bind (fun r₁ => (exec (step pairEnv) r.1 serialActs).map (fun r₂ =>
        ((onZero (r.2 ++ r₁.2) && (r₁.1.procs 0).dispatcher.resting && answersOf r.1 wovenActs,
          onZero (r.2 ++ r₂.2) && (r₂.1.procs 0).dispatcher.resting && answersOf r.1 serialActs),
          r₁.1.store.rows.map (fun e => e.relayStatus))))) =
      some ((true, true), [some "success", some "success"]) := by
    decide +kernel
  obtain ⟨⟨w, os⟩, h, hrest⟩ := Option.bind_eq_some_iff.mp hcomputed
  obtain ⟨⟨w₁, os₁⟩, h₁, hrest⟩ := Option.bind_eq_some_iff.mp hrest
  obtain ⟨⟨w₂, os₂⟩, h₂, hfacts⟩ := Option.map_eq_some_iff.mp hrest
  simp only [Prod.mk.injEq, Bool.and_eq_true, answersOf, List.all_eq_true, beq_iff_eq] at hfacts
  obtain ⟨⟨⟨⟨hzero₁, hresting₁⟩, hanswers₁⟩, ⟨hzero₂, hresting₂⟩, hanswers₂⟩, hstatus⟩ := hfacts
  have hrun := Run.of_exec h
  have hrun₁ := Run.of_exec h₁
  have hrun₂ := Run.of_exec h₂
  have hwoven : ∀ a ∈ wovenActs, a.Background := by
    intro a ha
    simp only [wovenActs, List.mem_cons, List.mem_flatMap, List.not_mem_nil, or_false] at ha
    rcases ha with rfl | rfl | ⟨x, hx, rfl | rfl⟩
    · exact ⟨0, rfl⟩
    · exact ⟨0, rfl⟩
    · exact turnActs_background (List.of_mem_zip hx).2
    · exact turnActs_background (List.of_mem_zip hx).1
  have hserial : ∀ a ∈ serialActs, a.Background := by
    intro a ha
    simp only [serialActs, List.mem_cons, List.mem_append] at ha
    rcases ha with rfl | rfl | ha | ha
    · exact ⟨0, rfl⟩
    · exact ⟨0, rfl⟩
    · exact turnActs_background ha
    · exact turnActs_background ha
  obtain ⟨hrows, -, hcounters⟩ := schedules_agree hrun hrun₁ hrun₂ ⟨hwoven, hanswers₁⟩ ⟨hserial, hanswers₂⟩
    (onZero_rest (hrun.append hrun₁) hzero₁ hresting₁) (onZero_rest (hrun.append hrun₂) hzero₂ hresting₂)
  exact ⟨w, os, w₁, os₁, w₂, os₂, h, h₁, h₂, hstatus, hrows, hcounters 0⟩

end WebhookRelay
