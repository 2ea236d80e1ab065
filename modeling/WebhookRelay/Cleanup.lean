import WebhookRelay.Authentication

/-
  services/cleanup.py and `admin_cleanup` of api/routes.py. The cutoff is a
  difference of datetimes, which overflows for a retention beyond the calendar;
  the deletion is the cleanup step of `System`.
-/
namespace WebhookRelay

open Py Transition

/-- `timedelta(days=days)`, in days. -/
def timedeltaDays (days : Int) : Except PyExc Int :=
  if days < -2147483648 ∨ 2147483647 < days then
    .error (.other "OverflowError" "Python int too large to convert to C int")
  else if 999999999 < days.natAbs then
    .error (.other "OverflowError" s!"days={days}; must have magnitude <= 999999999")
  else .ok days

/-- The cutoff of a cleanup. -/
def cleanupCutoff (now : Moment) (retentionDays : Int) : Except PyExc Moment := do
  let days ← timedeltaDays retentionDays
  let cutoff := (now.micros : Int) - days * dayMicros
  if h : 0 ≤ cutoff ∧ cutoff < maxMicros then .ok ⟨cutoff.toNat, by omega⟩
  else .error (.other "OverflowError" "date value out of range")

/-- `cleanup_old_events`: the table it leaves, and the number of deleted rows. -/
def cleanupOldEvents (s : Store) (retentionDays : Int) (now : Moment) : Store × Except PyExc Nat :=
  match cleanupCutoff now retentionDays with
  | .error exc => (s, .error exc)
  | .ok cutoff => (s.deleteBefore cutoff, .ok (s.expired cutoff).length)

/-- `admin_cleanup`. -/
def adminCleanup (settings : Settings) (headerToken : Option String) (s : Store) (now : Moment) :
    Store × Except PyExc Nat :=
  match requireAdminToken headerToken settings.adminToken with
  | .error exc => (s, .error exc)
  | .ok () =>
    match settings.eventRetentionDays with
    | none => (s, .error (.httpException 400 "EVENT_RETENTION_DAYS is not set"))
    | some retentionDays => cleanupOldEvents s retentionDays now

/-- A cleanup is one deletion, or leaves the table alone. -/
theorem cleanupOldEvents_cases (s : Store) (retentionDays : Int) (now : Moment) :
    (∃ cutoff, cleanupOldEvents s retentionDays now =
        (s.deleteBefore cutoff, .ok (s.expired cutoff).length)) ∨
      ∃ exc, cleanupOldEvents s retentionDays now = (s, .error exc) := by
  unfold cleanupOldEvents
  cases cleanupCutoff now retentionDays with
  | error exc => exact .inr ⟨exc, rfl⟩
  | ok cutoff => exact .inl ⟨cutoff, rfl⟩

/-- The endpoint leaves the table alone, or the header is the token, a retention
is configured, and the table has lost what one cleanup step deletes. -/
theorem adminCleanup_cases (settings : Settings) (headerToken : Option String) (s : Store)
    (now : Moment) :
    (adminCleanup settings headerToken s now).1 = s ∨
      (settings.adminToken ≠ [] ∧ AdminBy headerToken settings.adminToken ∧
        settings.eventRetentionDays.isSome ∧
        ∃ cutoff, (adminCleanup settings headerToken s now).1 = s.deleteBefore cutoff) := by
  unfold adminCleanup
  cases hadmin : requireAdminToken headerToken settings.adminToken with
  | error exc => exact .inl rfl
  | ok u =>
    obtain ⟨hne, hby⟩ := adminBy_of_ok hadmin
    cases settings.eventRetentionDays with
    | none => exact .inl rfl
    | some retentionDays =>
      obtain ⟨cutoff, h⟩ | ⟨exc, h⟩ := cleanupOldEvents_cases s retentionDays now
      · exact .inr ⟨hne, hby, rfl, cutoff, congrArg Prod.fst h⟩
      · exact .inl (congrArg Prod.fst h)

/-- What the endpoint leaves is what a cleanup step of the service leaves. -/
theorem adminCleanup_step (env : Env) (w : World) (settings : Settings) (headerToken : Option String)
    (now : Moment) :
    (adminCleanup settings headerToken w.store now).1 = w.store ∨
      ∃ cutoff w' o, step env w (.cleanup cutoff) = some (w', o) ∧
        w'.store = (adminCleanup settings headerToken w.store now).1 := by
  obtain h | ⟨-, -, -, cutoff, h⟩ := adminCleanup_cases settings headerToken w.store now
  · exact .inl h
  · exact .inr ⟨cutoff, _, _, rfl, h.symm⟩

end WebhookRelay
