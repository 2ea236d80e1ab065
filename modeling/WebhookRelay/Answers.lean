import WebhookRelay.Acceptance
import WebhookRelay.Termination

/-
  The steps of a request. A handler's next transaction is a step of the model in
  every state, and four of them are enough for an answer (`handler_steps`). What a
  transaction waits for inside the database is no part of a step. The counting is
  that of `Potential`, with the steps a handler has left.
-/
namespace WebhookRelay

open Py Transition

/-- An observation of a step of the handler of request `r`. -/
def Obs.ofHandler (r : Nat) : Obs → Bool
  | .inserted r' _ | .conflict r' | .replayed r' _ | .lost r' | .counted r' _ | .enqueued r' _ _ _ | .refused r'
  | .uninitialised r' _ | .marked r' _ => r' = r
  | .started _ | .stopped _ | .closed _ | .rejected _ _ | .built _ _ | .began _ _ | .job _ _ _ _ | .idled _ _
  | .deleted _ => false

/-- The event the handler works on. -/
def Handler.intake? : Handler → Option Intake
  | .active i _ | .answered i _ | .failed i _ => some i
  | .absent | .rejected _ => none

/-- The handler has come to an answer or to an exception. -/
def Handler.Ended (i : Intake) (h : Handler) : Prop :=
  (∃ resp, h = .answered i resp) ∨ ∃ exc, h = .failed i exc

theorem Obs.ofHandler_request {r : Nat} {o : Obs} (h : o.ofHandler r = true) : o.request = some r := by
  cases o <;> simp_all [Obs.ofHandler, Obs.request]

/-- A handler without steps left has ended. -/
theorem ended_of_stepsLeft {h : Handler} {i : Intake} (hi : h.intake? = some i) (hleft : h.stepsLeft = 0) :
    h.Ended i := by
  cases h with
  | absent | rejected _ => cases hi
  | active j ph => cases ph <;> cases hleft
  | answered j resp =>
    cases hi
    exact .inl ⟨resp, rfl⟩
  | failed j exc =>
    cases hi
    exact .inr ⟨exc, rfl⟩

section

variable {env : Env} {w w' : World} {a : Act} {o : Obs} {as : List Act} {os : List Obs}

/-- The steps a handler has taken, with those it has left. -/
theorem Shape.steps {r : Nat} {h : Handler} {tr : List Obs} (hs : Shape env r h tr) :
    tr.countP (Obs.ofHandler r) + h.stepsLeft ≤ 4 := by
  cases hs <;> simp [Obs.ofHandler, Handler.stepsLeft]

theorem countP_trail (r : Nat) (os : List Obs) :
    (trail r os).countP (Obs.ofHandler r) = os.countP (Obs.ofHandler r) := by
  rw [trail, List.countP_filter]
  apply List.countP_congr
  intro o _
  rw [Bool.and_eq_true, decide_eq_true_eq]
  exact ⟨fun h => h.1, fun h => ⟨h, Obs.ofHandler_request h⟩⟩

/-- A handler at work goes on with its event, and pays for its steps. -/
theorem Move.steps_paid (hm : Move env w a w' o) {r : Nat} {i : Intake} (hi : (w.handlers r).intake? = some i) :
    (w'.handlers r).intake? = some i ∧
      (w'.handlers r).stepsLeft + (if o.ofHandler r then 1 else 0) ≤ (w.handlers r).stepsLeft := by
  -- a step of another party, or of another request
  have other : ∀ {r' : Nat} {h : Handler}, r' ≠ r → w'.handlers = Function.update w.handlers r' h →
      (o.ofHandler r = true → r' = r) → (w'.handlers r).intake? = some i ∧
        (w'.handlers r).stepsLeft + (if o.ofHandler r then 1 else 0) ≤ (w.handlers r).stepsLeft := by
    intro r' h hne hh ho
    rw [hh, Function.update_of_ne (Ne.symm hne)]
    refine ⟨hi, ?_⟩
    rw [if_neg (fun hmine => hne (ho hmine))]
    exact Nat.le_refl _
  -- its own
  have own : ∀ {h : Handler} {ph : Phase} {j : Intake}, w.handlers r = .active j ph →
      w'.handlers = Function.update w.handlers r h → h.intake? = some j →
      h.stepsLeft < (Handler.active j ph).stepsLeft → (w'.handlers r).intake? = some i ∧
        (w'.handlers r).stepsLeft + (if o.ofHandler r then 1 else 0) ≤ (w.handlers r).stepsLeft := by
    intro h ph j hactive hh hj hlt
    rw [hactive] at hi ⊢
    rw [hh, Function.update_self]
    refine ⟨hj.trans hi, ?_⟩
    split <;> omega
  cases hm with
  | started | stopped | closed | began | beganLate | taken | worked | recorded | finished | dropped | idled
  | deleted => exact ⟨hi, Nat.le_refl _⟩
  | @rejected p r' _ _ _ hh | @built p r' _ _ _ hh _ _ =>
    by_cases hr : r' = r
    · subst hr
      rw [hh] at hi
      cases hi
    · exact other hr rfl (fun h => by cases h)
  | @inserted r' j _ hh _ | @conflict r' j hh _ _ | @lostInsert r' j _ hh _ _ | @replayed r' j _ hh _
  | @lostLookup r' j hh _ | @countedRelay r' j hh _ _ | @countedOnly r' j hh _ | @enqueued r' _ j _ hh _ _
  | @refused r' j hh | @uninitialised r' j _ hh _ | @marked r' j hh =>
    by_cases hr : r' = r
    · subst hr
      exact own hh rfl rfl (by simp only [Handler.stepsLeft]; omega)
    · exact other hr rfl (fun h => of_decide_eq_true h)

/-- A request's steps are paid for by those it had left. -/
theorem steps_potential (env : Env) (r : Nat) (i : Intake) :
    Potential (step env) (fun w => (w.handlers r).intake? = some i) (fun w => (w.handlers r).stepsLeft)
      (fun o => if o.ofHandler r then 1 else 0) (fun _ => 0) where
  keeps := by
    intro w a w' o hi hs
    exact ((Move.of_step hs).steps_paid hi).1
  pays := by
    intro w a w' o hi hs
    exact ((Move.of_step hs).steps_paid hi).2

/-- A request under way has a next step in every state, takes four steps at most,
and has an answer, or an exception, when it has none left, whatever steps of other
parties come in between. -/
theorem handler_steps (h : Run (step env) World.initial as os w) {r : Nat} {i : Intake} {ph : Phase}
    (hh : w.handlers r = .active i ph) :
    (∃ w' o, step env w (.handler r) = some (w', o) ∧ o.ofHandler r = true) ∧
    os.countP (Obs.ofHandler r) + (w.handlers r).stepsLeft ≤ 4 ∧
    ∀ as' os' w', Run (step env) w as' os' w' →
      (w'.handlers r).stepsLeft + os'.countP (Obs.ofHandler r) ≤ (w.handlers r).stepsLeft ∧
      ((w'.handlers r).stepsLeft = 0 → (w'.handlers r).Ended i) := by
  have hi : (w.handlers r).intake? = some i := by
    rw [hh]
    rfl
  refine ⟨?_, ?_, ?_⟩
  · have hleft : 0 < (w.handlers r).stepsLeft := by
      rw [hh]
      cases ph <;> exact Nat.succ_pos _
    obtain ⟨w', o, hs, -⟩ := handler_progress hleft
    refine ⟨w', o, hs, ?_⟩
    cases Move.of_step hs with
    | inserted | conflict | lostInsert | replayed | lostLookup | countedRelay | countedOnly | enqueued | refused
    | uninitialised | marked => exact decide_eq_true rfl
  · have hshape := (shape_run h r).steps
    rwa [countP_trail] at hshape
  · intro as' os' w' hrun
    have hp := steps_potential env r i
    have htotal := hp.total hrun hi
    rw [worth_count] at htotal
    have hzero : worth (fun _ : Obs => 0) os' = 0 := by
      rw [worth, List.map_const', List.sum_replicate_nat, Nat.mul_zero]
    refine ⟨by omega, ?_⟩
    intro hleft
    exact ended_of_stepsLeft (hp.run hrun hi) hleft

end

end WebhookRelay
