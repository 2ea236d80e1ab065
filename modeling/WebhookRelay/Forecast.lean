import Mathlib.Data.List.Basic
import WebhookRelay.Transition

/-
  Runs that differ in their order only. A machine made of components, each with
  a key, may let them take turns in any order. A `Forecast` says of a state what
  each component is still going to show: a step takes what it shows from the
  forecast of its own component and leaves the others. Two runs from one state,
  both with nothing left to come, have then shown the same of every component
  (`Forecast.agree`), and altogether the same up to order (`Forecast.perm`).
-/
namespace Transition

variable {σ α ο κ β : Type}

/-! ## Parts of a list with keys -/

section

variable [DecidableEq κ] {l l' : List (κ × β)} {k : κ}

/-- What a list shows of one key. -/
def part (k : κ) (l : List (κ × β)) : List β := l.filterMap (fun x => if x.1 = k then some x.2 else none)

theorem part_append (k : κ) (l l' : List (κ × β)) : part k (l ++ l') = part k l ++ part k l' := List.filterMap_append

theorem part_cons_self (b : β) : part k ((k, b) :: l) = b :: part k l := by
  simp only [part, List.filterMap_cons, if_true]

theorem part_cons_other {j : κ} (h : j ≠ k) (b : β) : part k ((j, b) :: l) = part k l := by
  simp only [part, List.filterMap_cons, if_neg h]

theorem count_part [DecidableEq β] (k : κ) (b : β) (l : List (κ × β)) : (part k l).count b = l.count (k, b) := by
  induction l with
  | nil => rfl
  | cons x l ih =>
    obtain ⟨j, c⟩ := x
    by_cases hj : j = k
    · subst hj
      rw [part_cons_self, List.count_cons, List.count_cons, ih]
      simp only [beq_iff_eq, Prod.mk.injEq, true_and]
    · have hne : (j, c) ≠ (k, b) := by
        intro heq
        exact hj (congrArg Prod.fst heq)
      rw [part_cons_other hj, List.count_cons_of_ne hne, ih]

/-- Lists with the same parts are rearrangements of each other. -/
theorem perm_of_parts (h : ∀ k, part k l = part k l') : l.Perm l' := by
  classical
  rw [List.perm_iff_count]
  intro x
  rw [← count_part, ← count_part, h]

end

/-! ## Readers of a run -/

variable {step : σ → α → Option (σ × ο)}

/-- What holds of all that a reader gets from a run holds at every step. -/
theorem Meets.of_along {f : σ → α → ο → σ → Option β} {P : β → Prop} {s : σ} {as : List α}
    (h : ∀ x ∈ along step f s as, P x) :
    Meets step (fun t a => ∀ t' o, step t a = some (t', o) → ∀ x, f t a o t' = some x → P x) s as := by
  induction as generalizing s with
  | nil => exact .nil
  | cons a as ih =>
    apply Meets.cons
    · intro t o hs x hx
      apply h
      simp only [along, hs, hx]
      exact List.mem_cons_self
    · intro t o hs
      apply ih
      intro x hx
      apply h
      simp only [along, hs]
      exact List.mem_append_right _ hx

/-! ## Forecasts -/

/-- In states that meet `I`, `ahead s k tr` says that `tr` is what component `k`
still shows. -/
structure Forecast [DecidableEq κ] (step : σ → α → Option (σ × ο)) (I : σ → Prop) (C : σ → α → Prop)
    (read : ο → Option (κ × β)) (ahead : σ → κ → List β → Prop) : Prop where
  keeps : ∀ s a s' o, I s → step s a = some (s', o) → I s'
  back : ∀ s a s' o k tr, I s → C s a → step s a = some (s', o) → ahead s' k tr →
    ahead s k (part k (read o).toList ++ tr)
  unique : ∀ s k tr tr', I s → ahead s k tr → ahead s k tr' → tr = tr'

namespace Forecast

variable [DecidableEq κ] {I : σ → Prop} {C : σ → α → Prop} {read : ο → Option (κ × β)} {ahead : σ → κ → List β → Prop}
  {s t t' : σ} {as as' : List α} {os os' : List ο}

theorem reaches (hf : Forecast step I C read ahead) (h : Run step s as os t) (hs : I s) : I t := by
  induction h with
  | nil => exact hs
  | snoc _ hstep ih => exact hf.keeps _ _ _ _ ih hstep

/-- A run shows the beginning of the forecast. -/
theorem run (hf : Forecast step I C read ahead) (h : Run step s as os t) (hs : I s) (hC : Meets step C s as) {k : κ}
    {tr : List β} (hend : ahead t k tr) : ahead s k (part k (os.filterMap read) ++ tr) := by
  induction h generalizing tr with
  | nil => exact hend
  | @snoc u v as os a o hrun hstep ih =>
    have hlast := hf.back u a v o k tr (hf.reaches hrun hs) (hC.last hrun) hstep hend
    have hall := ih hC.init hlast
    rw [readings_snoc, part_append, List.append_assoc]
    exact hall

/-- **Agreement.** Runs from one state that leave nothing to come have shown the
same of every component, in the same order. -/
theorem agree (hf : Forecast step I C read ahead) (h : Run step s as os t) (h' : Run step s as' os' t') (hs : I s)
    (hC : Meets step C s as) (hC' : Meets step C s as') {k : κ} (hend : ahead t k []) (hend' : ahead t' k []) :
    part k (os.filterMap read) = part k (os'.filterMap read) := by
  have hrun := hf.run h hs hC hend
  have hrun' := hf.run h' hs hC' hend'
  rw [List.append_nil] at hrun hrun'
  exact hf.unique s k _ _ hs hrun hrun'

/-- They have shown the same altogether, up to order. -/
theorem perm (hf : Forecast step I C read ahead) (h : Run step s as os t) (h' : Run step s as' os' t') (hs : I s)
    (hC : Meets step C s as) (hC' : Meets step C s as') (hend : ∀ k, ahead t k []) (hend' : ∀ k, ahead t' k []) :
    (os.filterMap read).Perm (os'.filterMap read) :=
  perm_of_parts (fun k => hf.agree h h' hs hC hC' (hend k) (hend' k))

end Forecast

end Transition
