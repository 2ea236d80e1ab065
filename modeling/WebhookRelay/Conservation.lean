import Mathlib.Algebra.Ring.Nat
import Mathlib.Data.List.Perm.Lattice
import WebhookRelay.Background
import WebhookRelay.Lifecycle
import WebhookRelay.Retention

/-
  Where the rows go. In every run an event that was inserted is stored or was
  deleted by exactly one cleanup (`rows_conserved`), so the numbers the cleanups
  report and the size of the table add up to the number of INSERTs.

  scripts/cleanup.py runs the same cleanup from a schedule (`cleanupMain`). What
  a schedule leaves is what its latest cutoff leaves, in whatever order its runs
  come; a run raises exactly if its cutoff is no date, and the numbers the others
  print add up to the rows that went (`cron_schedule`).
-/
namespace WebhookRelay

open Py Transition

/-! ## Rows in and out -/

/-- The ids of the rows that were inserted. -/
def insertedIds (os : List Obs) : List String :=
  os.filterMap (fun o =>
    match o with
    | .inserted _ row => some row.id
    | _ => none)

/-- The ids of the rows that cleanups deleted. -/
def deletedIds (os : List Obs) : List String :=
  os.flatMap (fun o =>
    match o with
    | .deleted ids => ids
    | _ => [])

def Store.ids (s : Store) : List String := s.rows.map (fun e => e.id)

theorem insertedIds_append (os os' : List Obs) : insertedIds (os ++ os') = insertedIds os ++ insertedIds os' :=
  List.filterMap_append

theorem deletedIds_append (os os' : List Obs) : deletedIds (os ++ os') = deletedIds os ++ deletedIds os' :=
  List.flatMap_append

theorem mem_insertedIds {id : String} {os : List Obs} :
    id ∈ insertedIds os ↔ ∃ r row, .inserted r row ∈ os ∧ row.id = id := by
  rw [insertedIds, List.mem_filterMap]
  constructor
  · intro h
    obtain ⟨o, ho, hid⟩ := h
    split at hid
    · next r row =>
      cases hid
      exact ⟨r, row, ho, rfl⟩
    · cases hid
  · intro h
    obtain ⟨r, row, ho, rfl⟩ := h
    exact ⟨_, ho, rfl⟩

/-- A deletion splits the ids of a table. -/
theorem ids_deleteBefore (s : Store) (cutoff : Moment) :
    ((s.deleteBefore cutoff).ids ++ (s.expired cutoff).map (fun e => e.id)).Perm s.ids := by
  rw [Store.ids, Store.ids, ← List.map_append]
  apply List.Perm.map
  have hsplit := List.filter_append_perm (fun e : Event => decide (¬ e.receivedAt.utc < cutoff)) s.rows
  have hgone : s.rows.filter (fun e => !decide (¬ e.receivedAt.utc < cutoff)) = s.expired cutoff := by
    apply List.filter_congr
    intro e _
    rw [decide_not, Bool.not_not]
  rw [hgone] at hsplit
  exact hsplit

theorem ids_update (s : Store) (id : String) (v : RelayColumns) : (s.update id v).ids = s.ids := by
  rw [Store.ids, Store.ids, Store.update, List.map_map]
  exact List.map_congr_left (fun e _ => congrArg IntakeColumns.id (Store.setRelay_intake id v e))

section

variable {env : Env} {w w' : World} {a : Act} {o : Obs} {as : List Act} {os : List Obs}

/-- What a step stores and deletes is what was stored and what it inserts. -/
theorem Move.ids (hm : Move env w a w' o) :
    (w'.store.ids ++ deletedIds [o]).Perm (w.store.ids ++ insertedIds [o]) := by
  cases hm with
  | started | stopped | closed | rejected | built | conflict | lostInsert | replayed | lostLookup | countedRelay
  | countedOnly | enqueued | refused | uninitialised | began | beganLate | taken | worked | finished | dropped
  | idled => exact List.Perm.refl _
  | @inserted r i s hh hs =>
    have hids : s.ids = w.store.ids ++ [(i.row env).id] := by
      rw [Store.ids, (Store.insert_rows hs).2, List.map_append]
      rfl
    show (s.ids ++ []).Perm (w.store.ids ++ [(i.row env).id])
    rw [hids, List.append_nil]
  | marked | recorded =>
    show ((persistRelay env w.store _ _).ids ++ []).Perm (w.store.ids ++ [])
    rw [persistRelay, ids_update]
  | @deleted cutoff =>
    show ((w.store.deleteBefore cutoff).ids ++ ((w.store.expired cutoff).map (fun e : Event => e.id) ++ [])).Perm
      (w.store.ids ++ [])
    rw [List.append_nil, List.append_nil]
    exact ids_deleteBefore w.store cutoff

/-- No event is inserted twice. -/
theorem insertedIds_nodup (h : Run (step env) World.initial as os w) : (insertedIds os).Nodup := by
  induction h with
  | nil => exact List.nodup_nil
  | @snoc t t' as os a o hrun hs ih =>
    rw [insertedIds_append]
    cases Move.of_step hs with
    | started | stopped | closed | rejected | built | conflict | lostInsert | replayed | lostLookup | countedRelay
    | countedOnly | enqueued | refused | uninitialised | began | beganLate | taken | worked | finished | dropped
    | idled | marked | recorded | deleted =>
      show (insertedIds os ++ []).Nodup
      rwa [List.append_nil]
    | @inserted r i s hh _ =>
      rw [List.nodup_append]
      refine ⟨ih, List.nodup_singleton _, ?_⟩
      intro id hid id' hid' heq
      obtain ⟨r', row, hrow, rfl⟩ := mem_insertedIds.mp hid
      have hnew : id' = i.event.id := List.mem_singleton.mp hid'
      exact not_stored_inserting hrun hh r' row hrow (heq.trans hnew)

/-- **Rows are conserved.** In every run each event was inserted once, and is
stored or was deleted by one cleanup: the stored ids and those the cleanups
deleted are the inserted ids, each as often as it was inserted. -/
theorem rows_conserved (h : Run (step env) World.initial as os w) :
    (w.store.ids ++ deletedIds os).Perm (insertedIds os) ∧ (w.store.ids ++ deletedIds os).Nodup ∧
      w.store.rows.length + (deletedIds os).length = (insertedIds os).length := by
  have hperm : (w.store.ids ++ deletedIds os).Perm (insertedIds os) := by
    induction h with
    | nil => exact List.Perm.refl _
    | @snoc t t' as os a o hrun hs ih =>
      rw [deletedIds_append, insertedIds_append]
      calc List.Perm (t'.store.ids ++ (deletedIds os ++ deletedIds [o]))
            (deletedIds os ++ (t'.store.ids ++ deletedIds [o])) := by
            rw [← List.append_assoc, ← List.append_assoc]
            exact List.perm_append_comm.append_right _
        List.Perm _ (deletedIds os ++ (t.store.ids ++ insertedIds [o])) :=
            (Move.of_step hs).ids.append_left _
        List.Perm _ (insertedIds os ++ insertedIds [o]) := by
            rw [← List.append_assoc]
            exact (List.perm_append_comm.trans ih).append_right _
  refine ⟨hperm, hperm.nodup_iff.mpr (insertedIds_nodup h), ?_⟩
  rw [← hperm.length_eq, List.length_append, Store.ids, List.length_map]

end

/-- An event that is stored and then deleted. -/
theorem rows_conserved_deleted :
    ∃ w os, exec (step sampleEnv) World.initial (acceptActs ++ [.cleanup laterMoment]) = some (w, os) ∧
      (insertedIds os).length = 1 ∧ (deletedIds os).length = 1 ∧ w.store.rows.length = 0 := by
  have hrun : (exec (step sampleEnv) World.initial (acceptActs ++ [.cleanup laterMoment])).map (fun r =>
      ((insertedIds r.2).length, (deletedIds r.2).length)) = some (1, 1) := by
    decide +kernel
  obtain ⟨⟨w, os⟩, h, hfacts⟩ := Option.map_eq_some_iff.mp hrun
  simp only [Prod.mk.injEq] at hfacts
  obtain ⟨hin, hout⟩ := hfacts
  obtain ⟨-, -, hsum⟩ := rows_conserved (Run.of_exec h)
  exact ⟨w, os, h, hin, hout, by omega⟩

/-! ## The script -/

/-- How a run of the script ends. -/
structure Exit where
  code : Nat
  stdout : String
  stderr : String
  deriving DecidableEq

/-- What the script says about the rows it deleted. -/
def exitDeleted (deleted : Nat) : Exit := ⟨0, s!"Deleted {deleted} events\n", ""⟩

/-- `main` of scripts/cleanup.py. -/
def cleanupMain (settings : Settings) (s : Store) (now : Moment) : Store × Except PyExc Exit :=
  match settings.eventRetentionDays with
  | none => (s, .ok ⟨2, "", "EVENT_RETENTION_DAYS is not set\n"⟩)
  | some retentionDays =>
    match cleanupOldEvents s retentionDays now with
    | (s', .ok deleted) => (s', .ok (exitDeleted deleted))
    | (s', .error exc) => (s', .error exc)

/-- The script once at each of the times. -/
def cron (settings : Settings) (s : Store) : List Moment → Store × List (Except PyExc Exit)
  | [] => (s, [])
  | now :: times =>
    let (s', exit) := cleanupMain settings s now
    let (s'', exits) := cron settings s' times
    (s'', exit :: exits)

instance (now : Moment) (days : Int) : Decidable (InCalendar now days) := inferInstanceAs (Decidable (_ ∧ _))

/-- The script and the endpoint do the same. -/
theorem cleanupMain_admin {settings : Settings} {days : Int} (hdays : settings.eventRetentionDays = some days)
    {token : Option String} (htoken : requireAdminToken token settings.adminToken = .ok ()) (s : Store)
    (now : Moment) :
    (adminCleanup settings token s now).1 = (cleanupMain settings s now).1 ∧
      (cleanupMain settings s now).2 = (adminCleanup settings token s now).2.map exitDeleted := by
  simp only [adminCleanup, htoken, hdays, cleanupMain]
  cases h : cleanupOldEvents s days now with
  | mk s' result => cases result <;> exact ⟨rfl, rfl⟩

/-- What a run deletes, if it does not raise. -/
def counted (deleted : Except PyExc Nat) : Nat := deleted.toOption.getD 0

/-- One run of the script: what it leaves, whether it raises, and what it says it
deleted. -/
theorem cleanupMain_run {settings : Settings} {days : Int} (hdays : settings.eventRetentionDays = some days)
    (s : Store) (now : Moment) :
    (cleanupMain settings s now).1.rows = s.rows.filter (fun e => InCalendar now days → ¬ Overdue now days e) ∧
      ∃ deleted, (cleanupMain settings s now).2 = Except.map exitDeleted deleted ∧
        (deleted.toOption.isSome ↔ InCalendar now days) ∧
        counted deleted + (cleanupMain settings s now).1.rows.length = s.rows.length := by
  by_cases hcal : InCalendar now days
  · obtain ⟨cutoff, hok, hcutoff⟩ := cleanupCutoff_ok hcal
    have hmain : cleanupMain settings s now = (s.deleteBefore cutoff, .ok (exitDeleted (s.expired cutoff).length)) := by
      simp only [cleanupMain, hdays, cleanupOldEvents, hok]
    rw [hmain]
    refine ⟨?_, .ok (s.expired cutoff).length, rfl, iff_of_true rfl hcal, expired_add_deleteBefore s cutoff⟩
    show List.filter _ s.rows = _
    apply List.filter_congr
    intro e _
    have hlt : e.receivedAt.utc < cutoff ↔ Overdue now days e := by
      rw [Moment.lt_def, Overdue, daysBefore, ← daysBefore, ← hcutoff, Int.ofNat_lt]
    simp only [hlt, hcal, true_implies]
  · obtain ⟨exc, herr⟩ := cleanupOldEvents_error (s := s) hcal
    have hmain : cleanupMain settings s now = (s, .error exc) := by
      simp only [cleanupMain, hdays, herr]
    rw [hmain]
    refine ⟨?_, .error exc, rfl, iff_of_false Bool.false_ne_true hcal, Nat.zero_add _⟩
    apply Eq.symm
    apply List.filter_eq_self.mpr
    intro e _
    rw [decide_eq_true_eq]
    intro h
    exact absurd h hcal

/-- What runs of the script with a retention of so many days come to. -/
structure Scheduled (days : Int) (s : Store) (times : List Moment) (s' : Store) (exits : List (Except PyExc Exit)) :
    Prop where
  left : s'.rows = s.rows.filter (fun e => ∀ now ∈ times, InCalendar now days → ¬ Overdue now days e)
  printed : ∃ deleted : List (Except PyExc Nat), exits = deleted.map (Except.map exitDeleted) ∧
    times.Forall₂ (fun now d => d.toOption.isSome ↔ InCalendar now days) deleted ∧
    (deleted.map counted).sum + s'.rows.length = s.rows.length

theorem Scheduled.nil (days : Int) (s : Store) : Scheduled days s [] s [] := by
  refine ⟨?_, [], rfl, .nil, Nat.zero_add _⟩
  apply Eq.symm
  apply List.filter_eq_self.mpr
  intro e _
  rw [decide_eq_true_eq]
  intro now hnow
  cases hnow

/-- A run in front of others. -/
theorem Scheduled.cons {settings : Settings} {days : Int} (hdays : settings.eventRetentionDays = some days)
    {s s' : Store} {now : Moment} {times : List Moment} {exits : List (Except PyExc Exit)}
    (h : Scheduled days (cleanupMain settings s now).1 times s' exits) :
    Scheduled days s (now :: times) s' ((cleanupMain settings s now).2 :: exits) := by
  obtain ⟨hrows, deleted, hexit, hraises, hcount⟩ := cleanupMain_run hdays s now
  obtain ⟨hrest, counts, rfl, hall, hcounts⟩ := h
  refine ⟨?_, deleted :: counts, ?_, .cons hraises hall, ?_⟩
  · rw [hrest, hrows, List.filter_filter]
    apply List.filter_congr
    intro e _
    simp only [List.forall_mem_cons, Bool.decide_and, Bool.and_comm]
  · rw [hexit]
    rfl
  · rw [List.map_cons, List.sum_cons, Nat.add_assoc, hcounts, hcount]

/-- **Scheduled cleanups.** Whenever the script runs, and in whatever order,
what is left is what none of its cutoffs reaches. A run raises, and deletes
nothing, exactly if its cutoff is no date; the numbers the others print add up to
the rows that are gone. Without a retention every run exits with 2 and leaves the
table as it is. -/
theorem cron_schedule (settings : Settings) (s : Store) (times : List Moment) :
    match settings.eventRetentionDays with
    | none => cron settings s times = (s, times.map (fun _ => .ok ⟨2, "", "EVENT_RETENTION_DAYS is not set\n"⟩))
    | some days => Scheduled days s times (cron settings s times).1 (cron settings s times).2 := by
  split
  · next hdays =>
    induction times with
    | nil => rfl
    | cons now times ih =>
      have hmain : cleanupMain settings s now = (s, .ok ⟨2, "", "EVENT_RETENTION_DAYS is not set\n"⟩) := by
        simp only [cleanupMain, hdays]
      simp only [cron, hmain, ih, List.map_cons]
  · next days hdays =>
    induction times generalizing s with
    | nil => exact .nil days s
    | cons now times ih => exact .cons hdays (ih (cleanupMain settings s now).1)

/-- A run that raises, one that deletes the event, and one that finds nothing
left. -/
theorem cron_schedule_thrice :
    ∃ w os, exec (step sampleEnv) World.initial acceptActs = some (w, os) ∧
      (cron guardedSettings w.store [(sampleDraws 1 10).now, laterMoment, laterMoment]).2.map Except.toOption =
        [none, some (exitDeleted 1), some (exitDeleted 0)] ∧
      (cron guardedSettings w.store [(sampleDraws 1 10).now, laterMoment, laterMoment]).1.rows =
        w.store.rows.filter (fun e => ∀ now ∈ [(sampleDraws 1 10).now, laterMoment, laterMoment],
          InCalendar now 1 → ¬ Overdue now 1 e) := by
  have hrun : (exec (step sampleEnv) World.initial acceptActs).map (fun r =>
      (cron guardedSettings r.1.store [(sampleDraws 1 10).now, laterMoment, laterMoment]).2.map Except.toOption) =
        some [none, some (exitDeleted 1), some (exitDeleted 0)] := by
    decide +kernel
  obtain ⟨⟨w, os⟩, h, hexits⟩ := Option.map_eq_some_iff.mp hrun
  exact ⟨w, os, h, hexits, (cron_schedule guardedSettings w.store _).left⟩

end WebhookRelay
