import WebhookRelay.Acceptance
import WebhookRelay.Draining
import WebhookRelay.Linearization

/-
  The intake is linearizable. Its purpose is a log of events to which a request
  adds its event unless one with its source and key is there, and which a
  cleanup purges (`intakeLog`); counters, queues, relays and the order in which
  handlers of any number of processes take their transactions do not show.

  `intake_linearizable` says of every run: the committed INSERTs, the lookups
  that found a row and the cleanups are a sequential history of that log; every
  request holds the receipt of its one operation in it, from the moment it took
  effect to its answer; and a request that began after another was decided comes
  after it in the history. A request that fails without an operation has left
  the log alone; one that fails with one (its dispatcher was shut down) has
  stored its event.
-/
namespace WebhookRelay

open Py Transition

/-- What a client learns of the event it created or found. -/
structure Receipt where
  eventId : String
  receivedAt : Datetime
  deriving DecidableEq

/-- The key of an event, if it has one. -/
def IntakeColumns.dedupKey (e : IntakeColumns) : Option (String × String) :=
  e.idempotencyKey.map (fun k => (e.source, k))

def IntakeColumns.receipt (e : IntakeColumns) : Receipt := ⟨e.id, asUtc e.receivedAt⟩

/-- The log of the events received, the abstract object of the intake. -/
def intakeLog : Object (List IntakeColumns) (LogOp Nat IntakeColumns) (LogAnswer Receipt) :=
  keyedLog Nat IntakeColumns.dedupKey IntakeColumns.receipt

/-- The log a table stands for. -/
def World.intakes (w : World) : List IntakeColumns := w.store.rows.map (fun e => e.toIntakeColumns)

/-- The operation a step commits, with its answer. -/
def intakeCommit (env : Env) (w : World) (a : Act) (o : Obs) (_ : World) :
    Option (LogOp Nat IntakeColumns × LogAnswer Receipt) :=
  match o, a with
  | .inserted r row, _ => some (.submit r row.toIntakeColumns, .receipt row.receipt)
  | .replayed r row, _ =>
    match w.handlers r with
    | .active i _ => some (.submit r (i.row env).toIntakeColumns, .receipt row.receipt)
    | _ => none
  | .deleted ids, .cleanup cutoff => some (.purge (fun e => e.receivedAt.utc < cutoff), .purged ids.length)
  | _, _ => none

/-- The operations of a run of the service. -/
def intakeHistory (env : Env) (as : List Act) : List (LogOp Nat IntakeColumns × LogAnswer Receipt) :=
  along (step env) (intakeCommit env) World.initial as

def Intake.receipt (i : Intake) : Receipt := ⟨i.event.id, asUtc i.event.receivedAt⟩

/-- The receipt a request holds: from its deciding transaction on, the one its
answer will show. -/
def Handler.receipt : Handler → Option Receipt
  | .active i ph => if ph = .inserting ∨ ph = .recovering then none else some i.receipt
  | .answered _ resp => some ⟨resp.eventId, resp.receivedAt⟩
  | .failed i exc => if exc = .integrityError ∨ exc = .statementError then none else some i.receipt
  | .absent | .rejected _ => none

/-- What a request has been told. -/
def World.told (w : World) (r : Nat) : Option (LogAnswer Receipt) := (w.handlers r).receipt.map .receipt

theorem key_eq {a b : Event} (ha : a.dedupKey ≠ none) (h : b.dedupKey = a.dedupKey) : b.sameKey a := by
  have hsome : a.idempotencyKey ≠ none := by
    intro hnone
    exact ha (by rw [IntakeColumns.dedupKey, hnone]; rfl)
  obtain ⟨k, hk⟩ := Option.ne_none_iff_exists'.mp hsome
  rw [IntakeColumns.dedupKey, IntakeColumns.dedupKey, hk, Option.map_some, Option.map_eq_some_iff] at h
  obtain ⟨k', hk', hpair⟩ := h
  simp only [Prod.mk.injEq] at hpair
  obtain ⟨hsource, rfl⟩ := hpair
  exact ⟨by rw [hk']; exact Option.some_ne_none _, hsource, hk'.trans hk.symm⟩

section

variable {env : Env} {w w' : World} {a : Act} {o : Obs} {as : List Act} {os : List Obs}

/-- An update of relay columns does not show in the log. -/
theorem intakes_update (w : World) (id : String) (v : RelayColumns) :
    (w.setStore (w.store.update id v)).intakes = w.intakes := by
  rw [World.intakes, World.intakes, World.setStore_store, Store.update, List.map_map]
  apply List.map_congr_left
  intro e _
  exact Store.setRelay_intake id v e

/-- The INSERT is a submission whose key is not taken. -/
theorem inserted_effect {r : Nat} {i : Intake} {s : Store} (hs : w.store.insert (i.row env) = some s) :
    intakeLog.apply w.intakes (.submit r (i.row env).toIntakeColumns) =
      (s.rows.map (fun e => e.toIntakeColumns), .receipt (i.row env).receipt) := by
  obtain ⟨hfree, hrows⟩ := Store.insert_rows hs
  rw [hrows, List.map_append, List.map_singleton]
  apply keyedLog_fresh
  intro x hx htaken
  obtain ⟨row, hrow, rfl⟩ := List.mem_map.mp hx
  exact hfree ⟨row, hrow, .inr (key_eq htaken.1 htaken.2)⟩

/-- The lookup that found a row is a submission whose key that row has. -/
theorem replayed_effect {r : Nat} {i : Intake} {row : Event} (hkey : i.key ≠ "")
    (hl : w.store.lookup i.event.source (i.event.idempotencyKey.getD "") = some row) :
    intakeLog.apply w.intakes (.submit r (i.row env).toIntakeColumns) = (w.intakes, .receipt row.receipt) := by
  obtain ⟨hmem, hsource, hrow⟩ := Store.lookup_eq_some.mp hl
  have hsome := Intake.key_some hkey
  have hcols : (i.row env).dedupKey = some (i.event.source, i.event.idempotencyKey.getD "") := by
    show i.event.idempotencyKey.map _ = _
    rw [hsome]
    rfl
  have hrowkey : row.dedupKey = (i.row env).dedupKey := by
    rw [hcols, IntakeColumns.dedupKey, hrow, hsource]
    rfl
  have hne : (i.row env).dedupKey ≠ none := by
    rw [hcols]
    exact Option.some_ne_none _
  apply keyedLog_found _ (List.mem_map_of_mem hmem) ⟨hne, hrowkey⟩
  intro y hy hykey
  obtain ⟨row', hrow', rfl⟩ := List.mem_map.mp hy
  have hsame : row'.sameKey row := key_eq (by rw [hrowkey]; exact hne) (hykey.trans hrowkey.symm)
  rw [Store.eq_of_key hrow' hmem hsame]

/-- A cleanup is a purge. -/
theorem deleted_effect (w : World) (cutoff : Moment) :
    intakeLog.apply w.intakes (.purge (fun e => e.receivedAt.utc < cutoff)) =
      ((w.store.deleteBefore cutoff).rows.map (fun e => e.toIntakeColumns),
        .purged ((w.store.expired cutoff).map (fun e => e.id)).length) := by
  have hkept : (w.store.rows.map (fun e => e.toIntakeColumns)).filter
      (fun e => !decide (e.receivedAt.utc < cutoff)) =
        (w.store.deleteBefore cutoff).rows.map (fun e => e.toIntakeColumns) := by
    rw [List.filter_map, Store.deleteBefore]
    congr 1
    apply List.filter_congr
    intro e _
    simp only [Function.comp_apply, decide_not]
  have hgone : ((w.store.rows.map (fun e => e.toIntakeColumns)).filter
      (fun e => decide (e.receivedAt.utc < cutoff))).length =
        ((w.store.expired cutoff).map (fun e => e.id)).length := by
    rw [List.filter_map, List.length_map, List.length_map, Store.expired]
    rfl
  show (_, LogAnswer.purged _) = _
  rw [← hkept, ← hgone]
  rfl

/-- An enqueue fails only for want of a queue. -/
theorem uninitialised_exc {r : Nat} {id : String} (hs : step env w a = some (w', .uninitialised r id)) :
    ∃ i exc, w.handlers r = .active i .enqueuing ∧ w'.handlers r = .failed i exc ∧
      ¬ (exc = .integrityError ∨ exc = .statementError) := by
  cases Move.of_step hs with
  | @uninitialised _ i exc hh hq =>
    refine ⟨i, exc, hh, Function.update_self .., ?_⟩
    have hrun : step env w (.handler r) = some (w.setHandler r (.failed i (.runtimeError
        "Relay dispatcher is not initialized")), .uninitialised r i.event.id) := by
      simp only [step, stepHandler, hh, Dispatcher.enqueue, hq]
    rw [hrun] at hs
    have hfailed := congrArg (fun s => Option.map (fun x : World × Obs => x.1.handlers r) s) hs
    simp only [Option.map_some, World.setHandler_handlers, Function.update_self, Option.some.injEq,
      Handler.failed.injEq] at hfailed
    rw [← hfailed.2]
    simp only [reduceCtorEq, or_self, not_false_eq_true]

/-- A handler moved without a change of its receipt. -/
theorem told_kept {r : Nat} {h : Handler} (hh : w'.handlers = Function.update w.handlers r h)
    (hr : h.receipt = (w.handlers r).receipt) (k : Nat) : w'.told k = w.told k := by
  rw [World.told, World.told, hh]
  by_cases hk : k = r
  · subst hk
    rw [Function.update_self, hr]
  · rw [Function.update_of_ne hk]

/-- A handler moved that is another's. -/
theorem told_other {r k : Nat} {h : Handler} (hh : w'.handlers = Function.update w.handlers r h) (hk : r ≠ k) :
    w'.told k = w.told k := by
  rw [World.told, World.told, hh, Function.update_of_ne (Ne.symm hk)]

/-- A step that commits nothing for a request leaves it with what it was
told. -/
theorem Move.told_stays (hm : Move env w a w' o) (hs : step env w a = some (w', o)) (k : Nat)
    (hnone : ∀ b x, intakeCommit env w a o w' = some (b, x) → b.client ≠ some k) : w'.told k = w.told k := by
  cases hm with
  | started | stopped | closed | began | beganLate | taken | worked | recorded | finished | dropped | idled
  | deleted => rfl
  | rejected hh | built hh _ _ =>
    apply told_kept rfl
    rw [hh]
    rfl
  | conflict hh _ _ | lostLookup hh _ | countedRelay hh _ _ | countedOnly hh _ | enqueued hh _ _ | refused hh
  | marked hh =>
    apply told_kept rfl
    rw [hh]
    rfl
  | @lostInsert r i exc hh hexc _ =>
    -- no row was stored, whichever the exception is
    have hlost : exc = .integrityError ∨ exc = .statementError := by
      rw [hexc]
      split
      · exact .inl rfl
      · exact .inr rfl
    have hreceipt : (Handler.failed i exc).receipt = none := if_pos hlost
    apply told_kept rfl
    rw [hh, hreceipt]
    rfl
  | inserted hh _ =>
    apply told_other rfl
    intro hk
    exact hnone _ _ rfl (congrArg some hk)
  | @replayed r i row hh _ =>
    apply told_other rfl
    intro hk
    have hc : intakeCommit env w (.handler r) (.replayed r row)
        (w.setHandler r (.answered i (createResponse row))) =
          some (.submit r (i.row env).toIntakeColumns, .receipt row.receipt) := by
      simp only [intakeCommit, hh]
    exact hnone _ _ hc (congrArg some hk)
  | uninitialised hh _ =>
    obtain ⟨i, exc, hactive, hfailed, hexc⟩ := uninitialised_exc hs
    apply told_kept rfl
    rw [World.setHandler_handlers, Function.update_self] at hfailed
    have hreceipt : (Handler.failed i exc).receipt = some i.receipt := if_neg hexc
    rw [hfailed, hactive, hreceipt]
    rfl

/-- A step that commits an operation tells its request the answer. -/
theorem Move.told_commit (hm : Move env w a w' o) (hreach : Reachable env w) {b : LogOp Nat IntakeColumns}
    {x : LogAnswer Receipt} {k : Nat} (hc : intakeCommit env w a o w' = some (b, x)) (hk : b.client = some k) :
    w.told k = none ∧ w'.told k = some x := by
  cases hm with
  | started | stopped | closed | began | beganLate | taken | worked | recorded | finished | dropped | idled
  | rejected | built | conflict | lostInsert | lostLookup | countedRelay | countedOnly | enqueued | refused
  | marked | uninitialised => cases hc
  | deleted =>
    cases hc
    cases hk
  | @inserted r i s hh hs =>
    cases hc
    cases hk
    obtain ⟨as, os, hrun⟩ := hreach
    have htimes := ((fresh_run hrun).fromRequest k i (built_of_active hrun hh)).row_receivedAt
    constructor
    · rw [World.told, hh]
      rfl
    · have hhandler : ((w.setHandler k (.active i .counting)).setStore s).handlers k = .active i .counting :=
        Function.update_self ..
      rw [World.told, hhandler, IntakeColumns.receipt, htimes]
      rfl
  | @replayed r i row hh hl =>
    simp only [intakeCommit, hh, Option.some.injEq, Prod.mk.injEq] at hc
    obtain ⟨rfl, rfl⟩ := hc
    cases hk
    constructor
    · rw [World.told, hh]
      rfl
    · have hhandler : (w.setHandler k (.answered i (createResponse row))).handlers k =
          .answered i (createResponse row) := Function.update_self ..
      rw [World.told, hhandler]
      rfl

/-- A step that commits nothing leaves the log alone. -/
theorem Move.intakes_silent (hm : Move env w a w' o) (hc : intakeCommit env w a o w' = none) :
    w'.intakes = w.intakes := by
  cases hm with
  | started | stopped | closed | began | beganLate | taken | worked | finished | dropped | idled
  | rejected | built | conflict | lostInsert | lostLookup | countedRelay | countedOnly | enqueued | refused
  | uninitialised | replayed => rfl
  | marked | recorded => exact intakes_update w _ _
  | inserted | deleted => cases hc

/-- A request looks up only a key that is not empty. -/
theorem recovering_key {r : Nat} {i : Intake} {tr : List Obs} (hs : Shape env r (.active i .recovering) tr) :
    i.key ≠ "" := by
  cases hs with
  | recovering hkey => exact hkey

/-- A step that commits an operation performs it on the log. -/
theorem Move.intakes_effect (hm : Move env w a w' o) (hreach : Reachable env w) {b : LogOp Nat IntakeColumns}
    {x : LogAnswer Receipt} (hc : intakeCommit env w a o w' = some (b, x)) :
    intakeLog.apply w.intakes b = (w'.intakes, x) := by
  cases hm with
  | started | stopped | closed | began | beganLate | taken | worked | recorded | finished | dropped | idled
  | rejected | built | conflict | lostInsert | lostLookup | countedRelay | countedOnly | enqueued | refused
  | marked | uninitialised => cases hc
  | deleted =>
    cases hc
    exact deleted_effect w _
  | inserted _ hs =>
    cases hc
    exact inserted_effect hs
  | @replayed r i row hh hl =>
    simp only [intakeCommit, hh, Option.some.injEq, Prod.mk.injEq] at hc
    obtain ⟨rfl, rfl⟩ := hc
    obtain ⟨as, os, hrun⟩ := hreach
    exact replayed_effect (recovering_key (hh ▸ shape_run hrun r)) hl

/-- The intake linearizes the log of its events. -/
theorem intake_linearizes (env : Env) :
    Linearizes (step env) intakeLog (Reachable env) World.intakes (intakeCommit env) LogOp.client World.told where
  keeps := by
    intro w a w' o h hs
    obtain ⟨as, os, hrun⟩ := h
    exact ⟨as ++ [a], os ++ [o], hrun.snoc hs⟩
  silent := by
    intro w a w' o _ hs hc
    exact (Move.of_step hs).intakes_silent hc
  effect := by
    intro w a w' o b x h hs hc
    exact (Move.of_step hs).intakes_effect h hc
  answered := by
    intro w a w' o b x k h hs hc hk
    exact (Move.of_step hs).told_commit h hc hk
  others := by
    intro w a w' o k _ hs hnone
    exact (Move.of_step hs).told_stays hs k hnone

/-- A submission submits the event its request has built. -/
theorem submitted_built (h : Run (step env) World.initial as os w) {r : Nat} {e : IntakeColumns}
    {x : LogAnswer Receipt} (hc : (.submit r e, x) ∈ intakeHistory env as) :
    ∃ i, .built r i ∈ os ∧ e = (i.row env).toIntakeColumns := by
  induction h with
  | nil => cases hc
  | @snoc t t' as os a o hrun hs ih =>
    rw [intakeHistory, hrun.along_snoc (intakeCommit env) hs, List.mem_append] at hc
    rcases hc with hc | hc
    · obtain ⟨i, hi, he⟩ := ih hc
      exact ⟨i, List.mem_append_left _ hi, he⟩
    · rw [Option.mem_toList] at hc
      cases Move.of_step hs with
      | started | stopped | closed | began | beganLate | taken | worked | recorded | finished | dropped | idled
      | rejected | built | conflict | lostInsert | lostLookup | countedRelay | countedOnly | enqueued | refused
      | marked | uninitialised | deleted => cases hc
      | @inserted _ i _ hh _ =>
        cases hc
        exact ⟨i, List.mem_append_left _ (built_of_active hrun hh), rfl⟩
      | @replayed _ i _ hh _ =>
        simp only [intakeCommit, hh, Option.some.injEq, Prod.mk.injEq] at hc
        obtain ⟨hop, -⟩ := hc
        cases hop
        exact ⟨i, List.mem_append_left _ (built_of_active hrun hh), rfl⟩

/-- **The intake is linearizable.** Every run is a sequential history of the
log of events, in which each request has the one operation whose answer it
holds, submitting the event it built; what was decided before a point of the run
comes before what was requested after it. -/
theorem intake_linearizable (h : Run (step env) World.initial as os w) :
    intakeLog.exec [] ((intakeHistory env as).map Prod.fst) = (w.intakes, (intakeHistory env as).map Prod.snd) ∧
    (∀ r, answersOf LogOp.client r (intakeHistory env as) = (w.told r).toList) ∧
    (∀ r e x, (.submit r e, x) ∈ intakeHistory env as → ∃ i, .built r i ∈ os ∧ e = (i.row env).toIntakeColumns) ∧
    (∀ al ar ol mid, as = al ++ ar → Run (step env) World.initial al ol mid →
      ∃ later, intakeHistory env as = intakeHistory env al ++ later ∧
        ∀ r, (mid.told r ≠ none → answersOf LogOp.client r later = []) ∧
          (mid.handlers r = .absent → answersOf LogOp.client r (intakeHistory env al) = [])) := by
  have hl := intake_linearizes env
  have hinitial : Reachable env World.initial := ⟨[], [], .nil⟩
  have hanswers : ∀ {bs : List Act} {ol : List Obs} {v : World}, Run (step env) World.initial bs ol v →
      ∀ r, answersOf LogOp.client r (intakeHistory env bs) = (v.told r).toList :=
    fun hrun r => (hl.answers hrun hinitial r).symm
  refine ⟨hl.legal h hinitial, hanswers h, fun r e x => submitted_built h, ?_⟩
  intro al ar ol mid has hal
  refine ⟨along (step env) (intakeCommit env) mid ar, ?_, ?_⟩
  · rw [has]
    exact hal.along_append (intakeCommit env)
  · intro r
    constructor
    · intro htold
      obtain ⟨x, hx⟩ := Option.ne_none_iff_exists'.mp htold
      obtain ⟨or, har⟩ := Run.rest (has ▸ h) hal
      exact hl.no_more har ⟨al, ol, hal⟩ hx
    · intro habsent
      rw [hanswers hal r, World.told, habsent]
      rfl

end

/-- Two requests with one key, the second while the first is still to be
counted. -/
def replayActs : List Act :=
  [.startup 0, .request 0 1 (sampleRequest (some "k") acceptedBody) (sampleDraws 1 10),
    .request 0 2 (sampleRequest (some "k") acceptedBody) (sampleDraws 2 20), .handler 1, .handler 2, .handler 2,
    .handler 1, .handler 1]

/-- Both requests are told the same. -/
theorem intake_linearizable_replayed :
    ∃ w os x, exec (step sampleEnv) World.initial replayActs = some (w, os) ∧
      answersOf LogOp.client 1 (intakeHistory sampleEnv replayActs) = [x] ∧
      answersOf LogOp.client 2 (intakeHistory sampleEnv replayActs) = [x] ∧
      (intakeLog.exec [] ((intakeHistory sampleEnv replayActs).map Prod.fst)).1 = w.intakes := by
  have hrun : (exec (step sampleEnv) World.initial replayActs).map (fun r =>
      ((r.1.told 1).isSome, decide (r.1.told 2 = r.1.told 1))) = some (true, true) := by
    decide +kernel
  obtain ⟨⟨w, os⟩, h, hfacts⟩ := Option.map_eq_some_iff.mp hrun
  simp only [Prod.mk.injEq, decide_eq_true_eq] at hfacts
  obtain ⟨hsome, hsame⟩ := hfacts
  obtain ⟨x, hx⟩ := Option.isSome_iff_exists.mp hsome
  obtain ⟨hlegal, htold, -⟩ := intake_linearizable (Run.of_exec h)
  refine ⟨w, os, x, h, ?_, ?_, ?_⟩
  · rw [htold 1, hx]
    rfl
  · rw [htold 2, hsame, hx]
    rfl
  · rw [hlegal]

end WebhookRelay
