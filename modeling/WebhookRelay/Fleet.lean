import Mathlib.Data.Nat.Pairing
import WebhookRelay.Acceptance
import WebhookRelay.Outcomes

/-
  Processes that can be killed. A kill may come between any two steps of a
  process. The table stays, with what was committed; the queue, the workers, the
  HTTP client and the counters of the process are gone, and so are the requests
  it was handling. The process may start again, with other settings:
  `env.settings` is indexed by the incarnations of the processes here.

  A run with kills looks like a run without any, in which each incarnation is a
  process of its own that at some point stops taking steps: `mirror_step` says
  so of a step, and `mirror_run` of a run, with the incarnations it speaks of.
-/
namespace WebhookRelay

open Py Transition

/-! ## Incarnations -/

/-- The process an incarnation is of. -/
def origin (x : Nat) : Nat := (Nat.unpair x).1

/-- How often the process of an incarnation had been killed before it began. -/
def life (x : Nat) : Nat := (Nat.unpair x).2

/-- The current incarnation of a process, by the number of its kills. -/
def current (n : Nat → Nat) (p : Nat) : Nat := Nat.pair p (n p)

@[simp] theorem origin_current (n : Nat → Nat) (p : Nat) : origin (current n p) = p := by
  rw [origin, current, Nat.unpair_pair]

@[simp] theorem life_current (n : Nat → Nat) (p : Nat) : life (current n p) = n p := by
  rw [life, current, Nat.unpair_pair]

theorem current_inj {n : Nat → Nat} {p p' : Nat} (h : current n p = current n p') : p = p' := by
  rw [← origin_current n p, h, origin_current]

/-- The platform as the current incarnations find it: each has settings of its own. -/
def Env.during (env : Env) (n : Nat → Nat) : Env := { env with settings := fun p => env.settings (current n p) }

theorem during_settings (env : Env) (n : Nat → Nat) (p : Nat) :
    (env.during n).settings p = env.settings (current n p) := rfl

/-! ## Killing a process -/

/-- The world, how often each process was killed, and the requests whose process
was killed under them. -/
structure Fleet where
  world : World
  lives : Nat → Nat
  lost : Nat → Bool

inductive FleetAct where
  | act (a : Act)
  | crash (p : Nat)

inductive FleetObs where
  | seen (o : Obs)
  | crashed (p : Nat)

/-- A request that process `p` is handling. -/
def Handler.inProcess (p : Nat) : Handler → Bool
  | .active i _ => i.pid == p
  | _ => false

namespace Fleet

def initial : Fleet := ⟨World.initial, fun _ => 0, fun _ => false⟩

/-- What a kill leaves of process `p`: nothing. -/
def crash (s : Fleet) (p : Nat) : Fleet where
  world := s.world.setProc p {}
  lives := Function.update s.lives p (s.lives p + 1)
  lost := fun r => s.lost r || (s.world.handlers r).inProcess p

@[simp] theorem crash_world (s : Fleet) (p : Nat) : (s.crash p).world = s.world.setProc p {} := rfl

@[simp] theorem crash_lost (s : Fleet) (p r : Nat) :
    (s.crash p).lost r = (s.lost r || (s.world.handlers r).inProcess p) := rfl

@[simp] theorem crash_lives_self (s : Fleet) (p : Nat) : (s.crash p).lives p = s.lives p + 1 :=
  Function.update_self ..

theorem crash_lives_other {p p' : Nat} (s : Fleet) (h : p' ≠ p) : (s.crash p).lives p' = s.lives p' :=
  Function.update_of_ne h ..

theorem le_crash_lives (s : Fleet) (p p' : Nat) : s.lives p' ≤ (s.crash p).lives p' := by
  by_cases hp : p' = p
  · subst hp
    rw [crash_lives_self]
    omega
  · rw [crash_lives_other s hp]

def act (env : Env) (s : Fleet) (a : Act) : Option (Fleet × FleetObs) :=
  (WebhookRelay.step (env.during s.lives) s.world a).map (fun r => ({ s with world := r.1 }, .seen r.2))

def step (env : Env) (s : Fleet) : FleetAct → Option (Fleet × FleetObs)
  | .act (.handler r) => if s.lost r then none else s.act env (.handler r)
  | .act a => s.act env a
  | .crash p => some (s.crash p, .crashed p)

end Fleet

/-- What is seen of the service itself. -/
def FleetObs.obs : FleetObs → List Obs
  | .seen o => [o]
  | .crashed _ => []

/-! ## Renaming -/

def Intake.renamed (f : Nat → Nat) (i : Intake) : Intake := { i with pid := f i.pid }

@[simp] theorem Intake.renamed_pid (f : Nat → Nat) (i : Intake) : (i.renamed f).pid = f i.pid := rfl
@[simp] theorem Intake.renamed_event (f : Nat → Nat) (i : Intake) : (i.renamed f).event = i.event := rfl
@[simp] theorem Intake.renamed_queuePreFull (f : Nat → Nat) (i : Intake) :
    (i.renamed f).queuePreFull = i.queuePreFull := rfl
@[simp] theorem Intake.renamed_row (f : Nat → Nat) (env : Env) (i : Intake) :
    (i.renamed f).row env = i.row env := rfl

theorem Intake.row_during (env : Env) (n : Nat → Nat) (i : Intake) : i.row (env.during n) = i.row env := rfl
@[simp] theorem Intake.renamed_writable (f : Nat → Nat) (env : Env) (i : Intake) :
    (i.renamed f).writable env = i.writable env := rfl
theorem Intake.writable_during (env : Env) (n : Nat → Nat) (i : Intake) :
    i.writable (env.during n) = i.writable env := rfl

/-- An action with its processes renamed. -/
def Act.renamed (f : Nat → Nat) : Act → Act
  | .startup p => .startup (f p)
  | .shutdown p => .shutdown (f p)
  | .closeClient p => .closeClient (f p)
  | .request p r req draws => .request (f p) r req draws
  | .handler r => .handler r
  | .begin p t => .begin (f p) t
  | .take p t => .take (f p) t
  | .work p t input => .work (f p) t input
  | .finish p t => .finish (f p) t
  | .cancelled p t => .cancelled (f p) t
  | .cleanup cutoff => .cleanup cutoff

/-- An observation with its processes renamed. -/
def Obs.renamed (f : Nat → Nat) : Obs → Obs
  | .started p => .started (f p)
  | .stopped p => .stopped (f p)
  | .closed p => .closed (f p)
  | .built r i => .built r (i.renamed f)
  | .enqueued r p q j => .enqueued r (f p) q j
  | .began p t => .began (f p) t
  | .job p t id eff => .job (f p) t id eff
  | .idled p t => .idled (f p) t
  | o => o

theorem Obs.renamed_current (n : Nat → Nat) (o : Obs) : (o.renamed (current n)).renamed origin = o := by
  cases o <;> simp [Obs.renamed, Intake.renamed]

/-! ## The mirror -/

/-- What the handler of a request is in the run without crashes. -/
inductive Handler.Mirrors (n : Nat → Nat) : (lost : Bool) → Handler → Handler → Prop where
  | absent : Mirrors n false .absent .absent
  | rejected {exc : PyExc} : Mirrors n false (.rejected exc) (.rejected exc)
  | active {i : Intake} {ph : Phase} : Mirrors n false (.active i ph) (.active (i.renamed (current n)) ph)
  | answered {i j : Intake} {resp : CreateWebhookResponse} : Mirrors n false (.answered i resp) (.answered j resp)
  | failed {i j : Intake} {exc : PyExc} : Mirrors n false (.failed i exc) (.failed j exc)
  | lost {i : Intake} {ph : Phase} {h : Handler} (hh : h ≠ .absent) : Mirrors n true (.active i ph) h

/-- The same table, and the same in every process as in its current incarnation;
the incarnations to come have not begun. -/
structure Mirrors (s : Fleet) (w : World) : Prop where
  store : w.store = s.world.store
  issued : w.issued = s.world.issued
  procs : ∀ p, w.procs (current s.lives p) = s.world.procs p
  unborn : ∀ p m, s.lives p < m → w.procs (Nat.pair p m) = {}
  handlers : ∀ r, Handler.Mirrors s.lives (s.lost r) (s.world.handlers r) (w.handlers r)

section

variable {env : Env} {s : Fleet} {w : World}

theorem mirrors_initial : Mirrors Fleet.initial World.initial :=
  ⟨rfl, rfl, fun _ => rfl, fun _ _ _ => rfl, fun _ => .absent⟩

namespace Mirrors

theorem setProc (h : Mirrors s w) (p : Nat) (P : Proc) :
    Mirrors { s with world := s.world.setProc p P } (w.setProc (current s.lives p) P) := by
  refine ⟨h.store, h.issued, ?_, ?_, h.handlers⟩
  · intro p'
    rw [World.setProc_procs, World.setProc_procs]
    by_cases hp : p' = p
    · subst hp
      rw [Function.update_self, Function.update_self]
    · rw [Function.update_of_ne hp, Function.update_of_ne (fun heq => hp (current_inj heq))]
      exact h.procs p'
  · intro p' m hm
    have hne : Nat.pair p' m ≠ current s.lives p := by
      intro heq
      obtain ⟨rfl, rfl⟩ := Nat.pair_eq_pair.mp heq
      exact Nat.lt_irrefl _ hm
    rw [World.setProc_procs, Function.update_of_ne hne]
    exact h.unborn p' m hm

theorem setHandler (h : Mirrors s w) {r : Nat} {x x' : Handler} (hlive : s.lost r = false)
    (hx : Handler.Mirrors s.lives false x x') :
    Mirrors { s with world := s.world.setHandler r x } (w.setHandler r x') := by
  refine ⟨h.store, h.issued, h.procs, h.unborn, ?_⟩
  intro r'
  rw [World.setHandler_handlers, World.setHandler_handlers]
  by_cases hr : r' = r
  · subst hr
    rw [Function.update_self, Function.update_self, hlive]
    exact hx
  · rw [Function.update_of_ne hr, Function.update_of_ne hr]
    exact h.handlers r'

theorem setStore (h : Mirrors s w) (store : Store) :
    Mirrors { s with world := s.world.setStore store } (w.setStore store) :=
  ⟨rfl, h.issued, h.procs, h.unborn, h.handlers⟩

/-- A kill is nothing to the mirror: the process goes on in its next incarnation. -/
theorem crash (h : Mirrors s w) (p : Nat) : Mirrors (s.crash p) w := by
  refine ⟨h.store, h.issued, ?_, ?_, ?_⟩
  · intro p'
    by_cases hp : p' = p
    · subst hp
      rw [current, Fleet.crash_lives_self, Fleet.crash_world, World.setProc_procs, Function.update_self]
      exact h.unborn p' _ (Nat.lt_succ_self _)
    · rw [current, s.crash_lives_other hp, Fleet.crash_world, World.setProc_procs, Function.update_of_ne hp]
      exact h.procs p'
  · intro p' m hm
    apply h.unborn
    have hgrows := s.le_crash_lives p p'
    omega
  · intro r
    have hr := h.handlers r
    rw [Fleet.crash_lost, Fleet.crash_world, World.setProc_handlers]
    generalize s.lost r = b, s.world.handlers r = x, w.handlers r = x' at hr
    cases hr with
    | absent => exact .absent
    | rejected => exact .rejected
    | answered => exact .answered
    | failed => exact .failed
    | lost hx => exact .lost hx
    | @active i ph =>
      by_cases hp : i.pid = p
      · have hlost : (false || (Handler.active i ph).inProcess p) = true := by simp [Handler.inProcess, hp]
        rw [hlost]
        exact .lost Handler.noConfusion
      · have hkept : (false || (Handler.active i ph).inProcess p) = false := by simp [Handler.inProcess, hp]
        have hname : i.renamed (current s.lives) = i.renamed (current (s.crash p).lives) := by
          rw [Intake.renamed, Intake.renamed, current, current, s.crash_lives_other hp]
        rw [hkept, hname]
        exact .active

end Mirrors

/-! ## Steps in the mirror -/

variable {a : Act} {o : Obs} {t : World}

/-- What a live process does, its current incarnation can do in the mirror. -/
def Mirrored (env : Env) (s : Fleet) (w : World) (a : Act) (t : World) (o : Obs) : Prop :=
  ∃ w', step env w (a.renamed (current s.lives)) = some (w', o.renamed (current s.lives)) ∧
    Mirrors { s with world := t } w'

theorem Mirrors.at_process (h : Mirrors s w) {p : Nat} {P : Proc}
    (hs : step env w (a.renamed (current s.lives)) =
      some (w.setProc (current s.lives p) P, o.renamed (current s.lives))) :
    Mirrored env s w a (s.world.setProc p P) o :=
  ⟨_, hs, h.setProc p P⟩

theorem screenIps_during (env : Env) (n : Nat → Nat) (allow : Bool) (ips : List String) :
    screenIps (env.during n) allow ips = screenIps env allow ips := by
  induction ips with
  | nil => rfl
  | cons ip ips ih =>
    rw [screenIps, screenIps, ih]
    rfl

theorem afterResolution_during (env : Env) (n : Nat → Nat) (client : Bool) (job : RelayJob) (ips : List String) :
    afterResolution (env.during n) client job ips = afterResolution env client job ips := by
  rw [afterResolution, afterResolution, screenIps_during]

/-- A job does not read the settings again. -/
theorem advance_during (env : Env) (n : Nat → Nat) (client : Bool) (job : RelayJob) (pos : Position)
    (input : Input) : advance (env.during n) client job pos input = advance env client job pos input := by
  have hpolicy : preflightPolicy (env.during n) job = preflightPolicy env job := rfl
  have hpeer : ∀ dns peer,
      peerAllowed (env.during n) job.targetUrl dns peer = peerAllowed env job.targetUrl dns peer := fun _ _ => rfl
  unfold advance
  simp only [hpolicy, hpeer, afterResolution_during]
  rfl

theorem buildEvent_during (env : Env) (n : Nat → Nat) (p : Nat) (capacity : Except PyExc Bool) (req : Request)
    (draws : Draws) : buildEvent env (current n p) capacity req draws =
      (buildEvent (env.during n) p capacity req draws).map (Intake.renamed (current n)) := by
  have hvalid : validateRequest (env.during n) (env.settings (current n p)) req =
      validateRequest env (env.settings (current n p)) req := rfl
  unfold buildEvent
  rw [during_settings, hvalid]
  cases validateRequest env (env.settings (current n p)) req with
  | error exc => rfl
  | ok payload =>
    simp only [bind, Except.bind]
    split
    · rfl
    · cases capacity with
      | error exc => rfl
      | ok b => cases b <;> rfl

theorem Mirrors.issue (h : Mirrors s w) (issued : List Uuid) :
    Mirrors { s with world := { s.world with issued := issued } } { w with issued := issued } :=
  ⟨h.store, rfl, h.procs, h.unborn, h.handlers⟩

theorem mirror_request (h : Mirrors s w) {p r : Nat} {req : Request} {draws : Draws}
    (hs : step (env.during s.lives) s.world (.request p r req draws) = some (t, o)) :
    Mirrored env s w (.request p r req draws) t o := by
  simp only [step] at hs
  split at hs
  · next ha =>
    have hr := h.handlers r
    obtain ⟨hlive, hw⟩ : s.lost r = false ∧ w.handlers r = .absent := by
      generalize s.lost r = b, w.handlers r = x' at hr
      rw [ha] at hr
      cases hr with
      | absent => exact ⟨rfl, rfl⟩
    split at hs
    · cases hs
    · next hfresh =>
      have hissue := h.issue (draws.requestUuid :: draws.eventUuid :: s.world.issued)
      split at hs
      · next i hb =>
        cases hs
        refine ⟨_, ?_, hissue.setHandler hlive .active⟩
        simp only [Act.renamed, Obs.renamed, step, hw, h.issued, if_neg hfresh, h.procs, buildEvent_during, hb,
          Except.map]
      · next exc hb =>
        cases hs
        refine ⟨_, ?_, hissue.setHandler hlive .rejected⟩
        simp only [Act.renamed, Obs.renamed, step, hw, h.issued, if_neg hfresh, h.procs, buildEvent_during, hb,
          Except.map]
  · cases hs

theorem Mirrors.active (h : Mirrors s w) {r : Nat} {i : Intake} {ph : Phase} (hlost : s.lost r = false)
    (hx : s.world.handlers r = .active i ph) : w.handlers r = .active (i.renamed (current s.lives)) ph := by
  have hr := h.handlers r
  rw [hlost, hx] at hr
  generalize w.handlers r = x' at hr
  cases hr with
  | active => rfl

/-- An answer of a run with crashes is an answer of the run that it looks like. -/
theorem Mirrors.answered (h : Mirrors s w) {r : Nat} {i : Intake} {resp : CreateWebhookResponse}
    (hx : s.world.handlers r = .answered i resp) : ∃ j, w.handlers r = .answered j resp := by
  have hr := h.handlers r
  rw [hx] at hr
  generalize s.lost r = b, w.handlers r = x' at hr
  cases hr with
  | answered => exact ⟨_, rfl⟩

section

variable {r : Nat} {i : Intake}

theorem mirror_inserting (h : Mirrors s w) (hlost : s.lost r = false)
    (hx : s.world.handlers r = .active i .inserting)
    (hs : step (env.during s.lives) s.world (.handler r) = some (t, o)) : Mirrored env s w (.handler r) t o := by
  have hx' := h.active hlost hx
  simp only [step, stepHandler, hx, Intake.row_during] at hs
  split at hs
  · next hw =>
    rw [Intake.writable_during] at hw
    split at hs
    · next st hi =>
      cases hs
      refine ⟨_, ?_, (h.setHandler hlost .active).setStore st⟩
      simp only [Act.renamed, Obs.renamed, step, stepHandler, hx', h.store, Intake.renamed_writable, if_pos hw,
        Intake.renamed_row, hi]
    · next hi =>
      split at hs
      · next hkey =>
        cases hs
        refine ⟨_, ?_, h.setHandler hlost (.failed (j := i.renamed (current s.lives)))⟩
        simp only [Act.renamed, Obs.renamed, step, stepHandler, hx', h.store, Intake.renamed_writable, if_pos hw,
          Intake.renamed_row, hi, Intake.renamed_event]
        exact if_pos hkey
      · next hkey =>
        cases hs
        refine ⟨_, ?_, h.setHandler hlost .active⟩
        simp only [Act.renamed, Obs.renamed, step, stepHandler, hx', h.store, Intake.renamed_writable, if_pos hw,
          Intake.renamed_row, hi, Intake.renamed_event]
        exact if_neg hkey
  · next hw =>
    rw [Intake.writable_during] at hw
    cases hs
    refine ⟨_, ?_, h.setHandler hlost (.failed (j := i.renamed (current s.lives)))⟩
    simp only [Act.renamed, Obs.renamed, step, stepHandler, hx', Intake.renamed_writable]
    exact if_neg hw

theorem mirror_recovering (h : Mirrors s w) (hlost : s.lost r = false)
    (hx : s.world.handlers r = .active i .recovering)
    (hs : step (env.during s.lives) s.world (.handler r) = some (t, o)) : Mirrored env s w (.handler r) t o := by
  have hx' := h.active hlost hx
  simp only [step, stepHandler, hx] at hs
  split at hs
  · next row hl =>
    cases hs
    refine ⟨_, ?_, h.setHandler hlost (.answered (j := i.renamed (current s.lives)))⟩
    simp only [Act.renamed, Obs.renamed, step, stepHandler, hx', h.store, Intake.renamed_event, hl]
  · next hl =>
    cases hs
    refine ⟨_, ?_, h.setHandler hlost (.failed (j := i.renamed (current s.lives)))⟩
    simp only [Act.renamed, Obs.renamed, step, stepHandler, hx', h.store, Intake.renamed_event, hl]

theorem mirror_counting (h : Mirrors s w) (hlost : s.lost r = false)
    (hx : s.world.handlers r = .active i .counting)
    (hs : step (env.during s.lives) s.world (.handler r) = some (t, o)) : Mirrored env s w (.handler r) t o := by
  have hx' := h.active hlost hx
  simp only [step, stepHandler, hx] at hs
  split at hs
  · next ht =>
    rw [during_settings] at ht
    cases hs
    refine ⟨_, ?_, (h.setProc i.pid _).setHandler hlost .active⟩
    simp only [Act.renamed, Obs.renamed, step, stepHandler, hx', h.procs, Intake.renamed_pid,
      Intake.renamed_event, Intake.renamed_queuePreFull, if_pos ht]
  · next ht =>
    rw [during_settings] at ht
    cases hs
    refine ⟨_, ?_, (h.setProc i.pid _).setHandler hlost (.answered (j := i.renamed (current s.lives)))⟩
    simp only [Act.renamed, Obs.renamed, step, stepHandler, hx', h.procs, Intake.renamed_pid,
      Intake.renamed_event, Intake.renamed_queuePreFull, if_neg ht]

/-- The queue a job goes to is that of the current incarnation. -/
theorem mirror_enqueuing (h : Mirrors s w) (hlost : s.lost r = false)
    (hx : s.world.handlers r = .active i .enqueuing)
    (hs : step (env.during s.lives) s.world (.handler r) = some (t, o)) : Mirrored env s w (.handler r) t o := by
  have hx' := h.active hlost hx
  simp only [step, stepHandler, hx, during_settings] at hs
  split at hs
  · next exc he =>
    cases hs
    refine ⟨_, ?_, h.setHandler hlost (.failed (j := i.renamed (current s.lives)))⟩
    simp only [Act.renamed, Obs.renamed, step, stepHandler, hx', h.procs, Intake.renamed_pid,
      Intake.renamed_event, he]
  · next d he =>
    cases hs
    refine ⟨_, ?_, (h.setProc i.pid _).setHandler hlost (.answered (j := i.renamed (current s.lives)))⟩
    simp only [Act.renamed, Obs.renamed, step, stepHandler, hx', h.procs, Intake.renamed_pid,
      Intake.renamed_event, he]
  · next he =>
    cases hs
    refine ⟨_, ?_, h.setHandler hlost .active⟩
    simp only [Act.renamed, Obs.renamed, step, stepHandler, hx', h.procs, Intake.renamed_pid,
      Intake.renamed_event, he]

theorem mirror_marking (h : Mirrors s w) (hlost : s.lost r = false)
    (hx : s.world.handlers r = .active i .marking)
    (hs : step (env.during s.lives) s.world (.handler r) = some (t, o)) : Mirrored env s w (.handler r) t o := by
  have hx' := h.active hlost hx
  simp only [step, stepHandler, hx] at hs
  cases hs
  refine ⟨_, ?_, (h.setHandler hlost (.answered (j := i.renamed (current s.lives)))).setStore _⟩
  simp only [Act.renamed, Obs.renamed, step, stepHandler, hx', h.store, Intake.renamed_event]
  rfl

theorem mirror_handler (h : Mirrors s w) (hlost : s.lost r = false)
    (hs : step (env.during s.lives) s.world (.handler r) = some (t, o)) : Mirrored env s w (.handler r) t o := by
  obtain ⟨i, ph, hx⟩ := (Move.of_step hs).handler_active
  cases ph with
  | inserting => exact mirror_inserting h hlost hx hs
  | recovering => exact mirror_recovering h hlost hx hs
  | counting => exact mirror_counting h hlost hx hs
  | enqueuing => exact mirror_enqueuing h hlost hx hs
  | marking => exact mirror_marking h hlost hx hs

end

theorem mirror_job (h : Mirrors s w) {p u : Nat} {input : Input}
    (hs : step (env.during s.lives) s.world (.work p u input) = some (t, o)) :
    Mirrored env s w (.work p u input) t o := by
  simp only [step, stepJob] at hs
  split at hs
  · next q job pos hst hc =>
    split at hs
    · cases hs
    · next pos' eff ha =>
      rw [advance_during] at ha
      cases eff with
      | recorded out =>
        cases hs
        refine ⟨_, ?_, (h.setProc p _).setStore _⟩
        simp only [Act.renamed, Obs.renamed, step, stepJob, h.procs, hst, hc, ha, h.store]
        rfl
      | taken | called | resolved _ | posted _ | answered _ | finished | dropped =>
        cases hs
        apply h.at_process
        simp only [Act.renamed, Obs.renamed, step, stepJob, h.procs, hst, hc, ha]
  · cases hs

theorem mirror_step (h : Mirrors s w) (hs : step (env.during s.lives) s.world a = some (t, o))
    (hlost : ∀ r, a = .handler r → s.lost r = false) : Mirrored env s w a t o := by
  cases a with
  | startup p =>
    simp only [step, during_settings] at hs
    split at hs
    · cases hs
    · next hc =>
      cases hs
      apply h.at_process
      simp only [Act.renamed, Obs.renamed, step, h.procs, if_neg hc]
  | shutdown p =>
    simp only [step] at hs
    split at hs
    · next hc =>
      cases hs
      apply h.at_process
      simp only [Act.renamed, Obs.renamed, step, h.procs, if_pos hc]
    · cases hs
  | closeClient p =>
    simp only [step] at hs
    split at hs
    · next hc =>
      cases hs
      apply h.at_process
      simp only [Act.renamed, Obs.renamed, step, h.procs, if_pos hc]
    · cases hs
  | request p r req draws => exact mirror_request h hs
  | handler r => exact mirror_handler h (hlost r rfl) hs
  | begin p u =>
    obtain ⟨d, hd, hr⟩ := Option.map_eq_some_iff.mp hs
    cases hr
    apply h.at_process
    simp only [Act.renamed, Obs.renamed, step, h.procs, hd, Option.map_some]
  | take p u =>
    obtain ⟨d, hd, hr⟩ := Option.map_eq_some_iff.mp hs
    cases hr
    apply h.at_process
    simp only [Act.renamed, Obs.renamed, step, h.procs, hd, Option.map_some]
  | work p u input => exact mirror_job h hs
  | finish p u =>
    simp only [step, stepFinish] at hs
    split at hs
    · next q job pos hst hc =>
      split at hs
      · cases hs
      · next e he =>
        obtain ⟨d, hd, hr⟩ := Option.map_eq_some_iff.mp hs
        cases hr
        apply h.at_process
        simp only [Act.renamed, Obs.renamed, step, stepFinish, h.procs, hst, hc, he, hd, Option.map_some]
    · cases hs
  | cancelled p u =>
    simp only [step, stepCancelled] at hs
    split at hs
    · next q job pos hst hc =>
      obtain ⟨d, hd, hr⟩ := Option.map_eq_some_iff.mp hs
      cases hr
      apply h.at_process
      simp only [Act.renamed, Obs.renamed, step, stepCancelled, h.procs, hst, hc, hd, Option.map_some]
    · next hst hc =>
      cases hs
      apply h.at_process
      simp only [Act.renamed, Obs.renamed, step, stepCancelled, h.procs, hst, hc]
    · next q hst hc =>
      cases hs
      apply h.at_process
      simp only [Act.renamed, Obs.renamed, step, stepCancelled, h.procs, hst, hc]
    · cases hs
  | cleanup cutoff =>
    cases hs
    refine ⟨_, ?_, h.setStore _⟩
    simp only [Act.renamed, Obs.renamed, step, h.store]

/-! ## Runs in the mirror -/

/-- The process whose queue or worker an observation is of. -/
def Obs.process : Obs → Option Nat
  | .enqueued _ p _ _ | .job p _ _ _ => some p
  | _ => none

theorem Obs.process_renamed (f : Nat → Nat) (o : Obs) : (o.renamed f).process = o.process.map f := by
  cases o <;> rfl

theorem Obs.effect_renamed (f : Nat → Nat) (id : String) (o : Obs) : (o.renamed f).effect id = o.effect id := by
  cases o <;> rfl

theorem Obs.decides_renamed (f : Nat → Nat) (o : Obs) : (o.renamed f).decides = o.decides := by
  cases o <;> rfl

theorem effects_renamed (f : Nat → Nat) (id : String) (os : List Obs) :
    effects id (os.map (Obs.renamed f)) = effects id os := by
  rw [effects, List.filterMap_map]
  exact congrArg (List.filterMap · os) (funext (Obs.effect_renamed f id))

/-- What a run with crashes lets one see. -/
def seen (cos : List FleetObs) : List Obs := cos.flatMap FleetObs.obs

theorem Fleet.act_inv {c : Fleet × FleetObs} (hs : Fleet.step env s (.act a) = some c) :
    (∀ r, a = .handler r → s.lost r = false) ∧
      ∃ t o, WebhookRelay.step (env.during s.lives) s.world a = some (t, o) ∧
        c = ({ s with world := t }, .seen o) := by
  have hact : s.act env a = some c ∧ ∀ r, a = .handler r → s.lost r = false := by
    unfold Fleet.step at hs
    split at hs
    · next r heq =>
      cases heq
      split at hs
      · cases hs
      · next hl =>
        refine ⟨hs, ?_⟩
        rintro r' ⟨⟩
        exact Bool.eq_false_of_not_eq_true hl
    · next hne heq =>
      cases heq
      exact ⟨hs, fun r hr => absurd hr (hne r)⟩
    · next heq => cases heq
  obtain ⟨⟨t, o⟩, ht, rfl⟩ := Option.map_eq_some_iff.mp hact.1
  exact ⟨hact.2, t, o, ht, rfl⟩

/-- A run without crashes that looks like one with them, in which queues and workers
are of incarnations between those at its start and at its end. -/
structure Mirroring (env : Env) (s : Fleet) (w : World) (cos : List FleetObs) (s' : Fleet) (as : List Act)
    (os : List Obs) (w' : World) : Prop where
  run : Run (step env) w as os w'
  mirrors : Mirrors s' w'
  view : os.map (Obs.renamed origin) = seen cos
  grows : ∀ p, s.lives p ≤ s'.lives p
  lives : ∀ o ∈ os, ∀ x, o.process = some x → s.lives (origin x) ≤ life x ∧ life x ≤ s'.lives (origin x)

theorem mirror_run {s' : Fleet} {cas : List FleetAct} {cos : List FleetObs} (h : Mirrors s w)
    (hrun : Run (Fleet.step env) s cas cos s') : ∃ as os w', Mirroring env s w cos s' as os w' := by
  induction hrun with
  | nil =>
    refine ⟨[], [], w, .nil, h, rfl, fun _ => Nat.le_refl _, ?_⟩
    intro o ho
    cases ho
  | @snoc t t' cas cos ca co _ hs ih =>
    obtain ⟨as, os, w', hw⟩ := ih
    cases ca with
    | crash p =>
      cases hs
      refine ⟨as, os, w', hw.run, hw.mirrors.crash p, ?_, ?_, ?_⟩
      · rw [hw.view, seen, seen, List.flatMap_append]
        exact (List.append_nil _).symm
      · intro p'
        exact (hw.grows p').trans (t.le_crash_lives p p')
      · intro o ho x hx
        obtain ⟨hfrom, hto⟩ := hw.lives o ho x hx
        exact ⟨hfrom, hto.trans (t.le_crash_lives p _)⟩
    | act a =>
      obtain ⟨hlost, v, o, hv, hc⟩ := Fleet.act_inv hs
      cases hc
      obtain ⟨w'', hstep, hmirrors⟩ := mirror_step hw.mirrors hv hlost
      refine ⟨_, _, w'', hw.run.snoc hstep, hmirrors, ?_, hw.grows, ?_⟩
      · rw [List.map_append, hw.view, seen, seen, List.flatMap_append, List.map_singleton, Obs.renamed_current]
        rfl
      · intro o' ho' x hx
        rcases List.mem_append.mp ho' with ho' | ho'
        · exact hw.lives o' ho' x hx
        · -- the process of a new observation is a current incarnation
          rw [List.mem_singleton.mp ho', Obs.process_renamed] at hx
          obtain ⟨p, -, rfl⟩ := Option.map_eq_some_iff.mp hx
          rw [origin_current, life_current]
          exact ⟨hw.grows p, Nat.le_refl _⟩

end

end WebhookRelay
