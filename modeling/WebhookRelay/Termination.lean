import Mathlib.Algebra.BigOperators.Group.List.Basic
import Mathlib.Algebra.Ring.Nat
import WebhookRelay.Transition

/-
  Work that ends. A `Potential` pays for the work of each step and is raised
  only by what the step brings in, so the work of a run is bounded by what the
  potential was and what came in (`Potential.total`). Steps of a class that
  always work and never bring anything in can only be taken finitely often
  (`Potential.length_le`), and taking them as long as possible ends in a state
  where none is enabled (`Potential.reaches_stuck`).
-/
namespace Transition

variable {σ α ο : Type} {step : σ → α → Option (σ × ο)} {I : σ → Prop} {μ : σ → Nat} {work gain : ο → Nat}

/-- No action of the class is enabled. -/
def Stuck (step : σ → α → Option (σ × ο)) (C : α → Prop) (s : σ) : Prop := ∀ a, C a → step s a = none

/-- What the observations of a run are worth together. -/
def worth (f : ο → Nat) (os : List ο) : Nat := (os.map f).sum

theorem worth_snoc (f : ο → Nat) (os : List ο) (o : ο) : worth f (os ++ [o]) = worth f os + f o := by
  rw [worth, List.map_append, List.sum_append, List.map_singleton, List.sum_singleton]
  rfl

/-- A worth of one for each observation of a kind counts them. -/
theorem worth_count (p : ο → Bool) (os : List ο) : worth (fun o => if p o then 1 else 0) os = os.countP p := by
  induction os with
  | nil => rfl
  | cons o os ih =>
    rw [List.countP_cons, ← ih]
    simp only [worth, List.map_cons, List.sum_cons]
    omega

/-- Prices for two kinds of observations. -/
theorem worth_prices (a b : Nat) (p q : ο → Bool) (os : List ο) :
    worth (fun o => a * (if p o then 1 else 0) + b * (if q o then 1 else 0)) os =
      a * os.countP p + b * os.countP q := by
  induction os with
  | nil => rfl
  | cons o os ih =>
    have hcons : ∀ f : ο → Nat, worth f (o :: os) = f o + worth f os := fun _ => List.sum_cons
    rw [hcons, ih, List.countP_cons, List.countP_cons, Nat.mul_add, Nat.mul_add]
    omega

/-- `μ` pays for the work of every step from a state in `I`, which the steps
keep. -/
structure Potential (step : σ → α → Option (σ × ο)) (I : σ → Prop) (μ : σ → Nat) (work gain : ο → Nat) : Prop where
  keeps : ∀ s a s' o, I s → step s a = some (s', o) → I s'
  pays : ∀ s a s' o, I s → step s a = some (s', o) → μ s' + work o ≤ μ s + gain o

/-- The actions of a class work, and bring nothing in. -/
def Working (step : σ → α → Option (σ × ο)) (C : α → Prop) (work gain : ο → Nat) : Prop :=
  ∀ s a s' o, C a → step s a = some (s', o) → 0 < work o ∧ gain o = 0

namespace Potential

variable {s s' : σ} {as : List α} {os : List ο} {C : α → Prop}

theorem run (hp : Potential step I μ work gain) (h : Run step s as os s') (hs : I s) : I s' := by
  induction h with
  | nil => exact hs
  | snoc _ hstep ih => exact hp.keeps _ _ _ _ ih hstep

/-- The work of a run is paid for. -/
theorem total (hp : Potential step I μ work gain) (h : Run step s as os s') (hs : I s) :
    μ s' + worth work os ≤ μ s + worth gain os := by
  induction h with
  | nil => exact Nat.le_refl _
  | @snoc t t' _ os _ o hrun hstep ih =>
    have hlast := hp.pays _ _ _ _ (hp.run hrun hs) hstep
    rw [worth_snoc, worth_snoc]
    omega

/-- A run of working actions is no longer than the potential it began with. -/
theorem length_le (hp : Potential step I μ work gain) (hw : Working step C work gain) (h : Run step s as os s')
    (hs : I s) (hC : ∀ a ∈ as, C a) : μ s' + as.length ≤ μ s := by
  induction h with
  | nil => exact Nat.le_refl _
  | @snoc t t' as _ a o hrun hstep ih =>
    have hpre := ih (fun b hb => hC b (List.mem_append_left _ hb))
    have hlast := hp.pays _ _ _ _ (hp.run hrun hs) hstep
    obtain ⟨hpos, hzero⟩ := hw t a t' o (hC a (List.mem_append_right _ (List.mem_singleton_self a))) hstep
    rw [List.length_append, List.length_singleton]
    omega

/-- Working actions, taken as long as one is enabled, lead to a state where none
is. -/
theorem reaches_stuck (hp : Potential step I μ work gain) (hw : Working step C work gain) (hs : I s) :
    ∃ as os s', Run step s as os s' ∧ (∀ a ∈ as, C a) ∧ Stuck step C s' := by
  -- by induction on the potential that is left
  generalize hn : μ s = n
  induction n using Nat.strongRecOn generalizing s with
  | ind n ih =>
    by_cases hstuck : Stuck step C s
    · refine ⟨[], [], s, .nil, ?_, hstuck⟩
      intro a ha
      cases ha
    · simp only [Stuck, not_forall] at hstuck
      obtain ⟨a, ha, henabled⟩ := hstuck
      obtain ⟨⟨t, o⟩, hstep⟩ := Option.ne_none_iff_exists'.mp henabled
      have hlast := hp.pays _ _ _ _ hs hstep
      obtain ⟨hpos, hzero⟩ := hw s a t o ha hstep
      obtain ⟨as, os, s', hrun, hC, hstuck⟩ := ih (μ t) (by omega) (hp.keeps _ _ _ _ hs hstep) rfl
      refine ⟨a :: as, o :: os, s', hrun.cons hstep, ?_, hstuck⟩
      intro b hb
      rcases List.mem_cons.mp hb with rfl | hb
      · exact ha
      · exact hC b hb

end Potential

end Transition
