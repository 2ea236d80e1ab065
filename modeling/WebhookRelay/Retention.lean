import WebhookRelay.Cleanup
import WebhookRelay.Lifecycle

/-
  The retention of services/cleanup.py, for every integer EVENT_RETENTION_DAYS.
  The cutoff is a date, so it must lie in the calendar (`cleanupCutoff_ok`,
  `cleanupCutoff_error`), and a negative setting puts it after the current time.
  `safe_cleanup_iff` says for which table, setting and time a cleanup deletes
  what it should and nothing else.
-/
namespace WebhookRelay

open Py Transition

/-- The instant `days` days before `now`, in microseconds, in the calendar or
not. -/
def daysBefore (now : Moment) (days : Int) : Int := (now.micros : Int) - days * dayMicros

/-- `now - timedelta(days=days)` is a date. -/
def InCalendar (now : Moment) (days : Int) : Prop := 0 ≤ daysBefore now days ∧ daysBefore now days < maxMicros

/-- The event was received more than `days` days before `now`. -/
def Overdue (now : Moment) (days : Int) (e : Event) : Prop := (e.receivedAt.utc.micros : Int) < daysBefore now days

instance (now : Moment) (days : Int) (e : Event) : Decidable (Overdue now days e) :=
  inferInstanceAs (Decidable (_ < _))

/-- What a cleanup should do: return, spare the events of now and later, and,
unless the setting is negative, delete the overdue events and count them. -/
structure SafeCleanup (s : Store) (days : Int) (now : Moment) : Prop where
  returns : ∃ n, (cleanupOldEvents s days now).2 = .ok n
  spares : ∀ e ∈ s.rows, now ≤ e.receivedAt.utc → e ∈ (cleanupOldEvents s days now).1.rows
  exact : 0 ≤ days →
    (∀ e, e ∈ (cleanupOldEvents s days now).1.rows ↔ e ∈ s.rows ∧ ¬ Overdue now days e) ∧
    (cleanupOldEvents s days now).2 = .ok (s.rows.filter (fun e => Overdue now days e)).length

/-! ## The cutoff -/

section

variable {now : Moment} {days : Int}

/-- The calendar is shorter than the longest `timedelta`. -/
theorem timedeltaDays_inCalendar (h : InCalendar now days) : timedeltaDays days = .ok days := by
  obtain ⟨hlo, hhi⟩ := h
  have hnow := now.lt_max
  unfold daysBefore dayMicros at hlo hhi
  unfold maxMicros maxDays dayMicros at hhi hnow
  unfold timedeltaDays
  rw [if_neg (by omega), if_neg (by omega)]

theorem cleanupCutoff_ok (h : InCalendar now days) :
    ∃ cutoff, cleanupCutoff now days = .ok cutoff ∧ (cutoff.micros : Int) = daysBefore now days := by
  refine ⟨⟨(daysBefore now days).toNat, ?_⟩, ?_, Int.toNat_of_nonneg h.1⟩
  · have hlo := h.1
    have hhi := h.2
    omega
  · simp only [cleanupCutoff, timedeltaDays_inCalendar h, bind, Except.bind]
    exact dif_pos h

theorem cleanupCutoff_error (h : ¬ InCalendar now days) : ∃ exc, cleanupCutoff now days = .error exc := by
  unfold cleanupCutoff
  cases htd : timedeltaDays days with
  | error exc => exact ⟨exc, rfl⟩
  | ok days' =>
    have hdays : days' = days := by
      unfold timedeltaDays at htd
      split at htd
      · cases htd
      · split at htd
        · cases htd
        · cases htd
          rfl
    subst hdays
    simp only [bind, Except.bind]
    exact ⟨_, dif_neg h⟩

end

/-! ## The cleanup -/

section

variable {s : Store} {now : Moment} {days : Int}

/-- With a cutoff in the calendar the overdue events are deleted and counted. -/
theorem cleanupOldEvents_inCalendar (h : InCalendar now days) :
    (∀ e, e ∈ (cleanupOldEvents s days now).1.rows ↔ e ∈ s.rows ∧ ¬ Overdue now days e) ∧
      (cleanupOldEvents s days now).2 = .ok (s.rows.filter (fun e => Overdue now days e)).length := by
  obtain ⟨cutoff, hok, hcutoff⟩ := cleanupCutoff_ok h
  have hlt : ∀ e : Event, e.receivedAt.utc < cutoff ↔ Overdue now days e := by
    intro e
    rw [Moment.lt_def, Overdue, ← hcutoff, Int.ofNat_lt]
  have hrun : cleanupOldEvents s days now = (s.deleteBefore cutoff, .ok (s.expired cutoff).length) := by
    rw [cleanupOldEvents, hok]
  rw [hrun]
  constructor
  · intro e
    rw [Store.mem_deleteBefore, hlt]
  · rw [Store.expired]
    simp only [hlt]

/-- Without one the cleanup raises, and deletes nothing. -/
theorem cleanupOldEvents_error (h : ¬ InCalendar now days) :
    ∃ exc, cleanupOldEvents s days now = (s, .error exc) := by
  obtain ⟨exc, herr⟩ := cleanupCutoff_error h
  exact ⟨exc, by rw [cleanupOldEvents, herr]⟩

theorem daysBefore_le (h : 0 ≤ days) : daysBefore now days ≤ now.micros := by
  unfold daysBefore dayMicros
  omega

end

/-- **Retention.** A cleanup does what it should if and only if its cutoff lies
in the calendar and, for a negative setting, no event of the table was received
from now on and before the cutoff. -/
theorem safe_cleanup_iff (s : Store) (days : Int) (now : Moment) :
    SafeCleanup s days now ↔
      (0 ≤ (now.micros : Int) - days * dayMicros ∧ (now.micros : Int) - days * dayMicros < maxMicros) ∧
      (0 ≤ days ∨ ∀ e ∈ s.rows, now.micros ≤ e.receivedAt.utc.micros →
        (now.micros : Int) - days * dayMicros ≤ e.receivedAt.utc.micros) := by
  constructor
  · intro h
    have hcal : InCalendar now days := by
      by_contra hno
      obtain ⟨exc, herr⟩ := cleanupOldEvents_error (s := s) hno
      obtain ⟨n, hn⟩ := h.returns
      rw [herr] at hn
      cases hn
    refine ⟨hcal, .inr ?_⟩
    intro e he hnow
    have hkept := h.spares e he hnow
    exact Int.not_lt.mp (((cleanupOldEvents_inCalendar hcal).1 e).mp hkept).2
  · intro h
    obtain ⟨hcal, hfuture⟩ := h
    obtain ⟨hrows, hcount⟩ := cleanupOldEvents_inCalendar (s := s) hcal
    refine ⟨⟨_, hcount⟩, ?_, fun _ => ⟨hrows, hcount⟩⟩
    intro e he hnow
    rw [hrows]
    refine ⟨he, Int.not_lt.mpr ?_⟩
    rcases hfuture with hdays | hall
    · calc daysBefore now days ≤ now.micros := daysBefore_le hdays
        _ ≤ e.receivedAt.utc.micros := Int.ofNat_le.mpr hnow
    · exact hall e he hnow

/-- A setting of -1 deletes an event received at the current time, and one of a
thousand million raises OverflowError. -/
theorem unsafe_cleanup :
    (∃ w os, exec (step sampleEnv) World.initial acceptActs = some (w, os) ∧
      ∃ row ∈ w.store.rows, (sampleDraws 1 10).now ≤ row.receivedAt.utc ∧
        row ∉ (cleanupOldEvents w.store (-1) (sampleDraws 1 10).now).1.rows ∧
        ¬ SafeCleanup w.store (-1) (sampleDraws 1 10).now) ∧
    (cleanupOldEvents .empty 1000000000 (sampleDraws 1 10).now).2 =
      .error (.other "OverflowError" "days=1000000000; must have magnitude <= 999999999") ∧
    ¬ SafeCleanup .empty 1000000000 (sampleDraws 1 10).now := by
  refine ⟨?_, by decide +kernel, ?_⟩
  · have hrun : (exec (step sampleEnv) World.initial acceptActs).map (fun r =>
        r.1.store.rows.map (fun e => e.receivedAt.utc)) = some [(sampleDraws 1 10).now] := by
      decide +kernel
    obtain ⟨w, os, row, h, hrow, hat⟩ := exec_row hrun
    have hcal : InCalendar (sampleDraws 1 10).now (-1) := by
      unfold InCalendar
      decide +kernel
    have hgone : row ∉ (cleanupOldEvents w.store (-1) (sampleDraws 1 10).now).1.rows := by
      intro hkept
      have hnot := (((cleanupOldEvents_inCalendar hcal).1 row).mp hkept).2
      rw [Overdue, hat] at hnot
      exact hnot (by decide +kernel)
    refine ⟨w, os, h, row, hrow, le_of_eq hat.symm, hgone, ?_⟩
    intro hsafe
    exact hgone (hsafe.spares row hrow (le_of_eq hat.symm))
  · intro hsafe
    obtain ⟨n, hn⟩ := hsafe.returns
    have herr : (cleanupOldEvents .empty 1000000000 (sampleDraws 1 10).now).2 ≠ .ok n := by
      rw [show (cleanupOldEvents .empty 1000000000 (sampleDraws 1 10).now).2 =
        .error (.other "OverflowError" "days=1000000000; must have magnitude <= 999999999") by decide +kernel]
      exact nofun
    exact herr hn

end WebhookRelay
