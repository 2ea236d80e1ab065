import WebhookRelay.Transition

/-
  Simulations between two machines. A step of the first is matched by a run of
  the second, of any length, in which an observer sees the same. `Simulates.run`
  carries this over to runs, so that what is proved of every run of the second
  machine, about what an observer sees of it, holds of the first.
-/
namespace Transition

variable {σ α ο τ β ρ γ : Type}

/-- Related states stay related: what the first machine does in a step, the
second can do in a run that looks the same. -/
def Simulates (step : σ → α → Option (σ × ο)) (step' : τ → β → Option (τ × ρ)) (R : σ → τ → Prop)
    (view : ο → List γ) (view' : ρ → List γ) : Prop :=
  ∀ s t a s' o, R s t → step s a = some (s', o) →
    ∃ bs ps t', Run step' t bs ps t' ∧ R s' t' ∧ ps.flatMap view' = view o

section

variable {step : σ → α → Option (σ × ο)} {step' : τ → β → Option (τ × ρ)} {R : σ → τ → Prop}
  {view : ο → List γ} {view' : ρ → List γ}

/-- A step of the second machine that looks like the first one's matches it. -/
theorem matched_by {s' : σ} {t t' : τ} {b : β} {p : ρ} {o : ο} (hs : step' t b = some (t', p)) (hR : R s' t')
    (hview : view' p = view o) :
    ∃ bs ps t', Run step' t bs ps t' ∧ R s' t' ∧ ps.flatMap view' = view o := by
  refine ⟨[b], [p], t', Run.single hs, hR, ?_⟩
  rw [List.flatMap_singleton, hview]

/-- So does no step, when there is nothing to see. -/
theorem matched_idle {s' : σ} {t : τ} {o : ο} (hR : R s' t) (hview : view o = []) :
    ∃ bs ps t', Run step' t bs ps t' ∧ R s' t' ∧ ps.flatMap view' = view o :=
  ⟨[], [], t, .nil, hR, hview.symm⟩

/-- A run of the first machine is matched by a run of the second. -/
theorem Simulates.run (h : Simulates step step' R view view') {s s' : σ} {t : τ} {as : List α} {os : List ο}
    (hR : R s t) (hrun : Run step s as os s') :
    ∃ bs ps t', Run step' t bs ps t' ∧ R s' t' ∧ ps.flatMap view' = os.flatMap view := by
  induction hrun with
  | nil => exact ⟨[], [], t, .nil, hR, rfl⟩
  | @snoc u u' as os a o _ hs ih =>
    obtain ⟨bs, ps, v, hv, hRv, hview⟩ := ih
    obtain ⟨bs', ps', v', hv', hRv', hview'⟩ := h u v a u' o hRv hs
    refine ⟨bs ++ bs', ps ++ ps', v', hv.append hv', hRv', ?_⟩
    calc (ps ++ ps').flatMap view'
        = ps.flatMap view' ++ ps'.flatMap view' := List.flatMap_append
      _ = os.flatMap view ++ [o].flatMap view := by rw [hview, hview', List.flatMap_singleton]
      _ = (os ++ [o]).flatMap view := List.flatMap_append.symm

end

end Transition
