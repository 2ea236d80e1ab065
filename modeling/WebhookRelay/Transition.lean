import Mathlib.Algebra.BigOperators.Group.Finset.Basic
import Mathlib.Data.List.Basic
import Mathlib.Logic.Function.Basic

/-
  Runs of a step function with observations. A machine is a partial function
  `step s a` giving the next state and what the step lets an observer see; a
  run performs a list of actions and collects the observations in order.

  The rules below are what a safety argument over such a machine needs: an
  invariant of states and histories (`Run.history`), its form under a
  condition on the actions (`Run.history_of`) or on the steps (`Meets`), what a
  counter of the state counts (`Run.count`), cutting a run at a chosen observation
  (`Run.cut`), and carrying a fact across the steps between two observations
  (`Run.stable`). `along` reads a run step by step, and a `Ledger` balances two
  such readings when amounts are on the way from one to the other.
-/
namespace Transition

variable {σ α ο : Type}

/-- `Run step s as os s'`: performing `as` from `s` ends in `s'`, with the
observations `os`, one for each action. -/
inductive Run (step : σ → α → Option (σ × ο)) (s : σ) : List α → List ο → σ → Prop where
  | nil : Run step s [] [] s
  | snoc {s' s'' : σ} {as : List α} {os : List ο} {a : α} {o : ο} :
      Run step s as os s' → step s' a = some (s'', o) → Run step s (as ++ [a]) (os ++ [o]) s''

/-- The run as a computation. -/
def exec (step : σ → α → Option (σ × ο)) : σ → List α → Option (σ × List ο)
  | s, [] => some (s, [])
  | s, a :: as =>
    match step s a with
    | none => none
    | some (s', o) => (exec step s' as).map (fun r => (r.1, o :: r.2))

/-- What is read off a history that grows by an observation. -/
theorem readings_snoc {β : Type} (f : ο → Option β) (os : List ο) (o : ο) :
    (os ++ [o]).filterMap f = os.filterMap f ++ (f o).toList := by
  rw [List.filterMap_append]
  cases h : f o <;> simp [h]

/-- What the steps of a run show a reader of states, action and observation. -/
def along {β : Type} (step : σ → α → Option (σ × ο)) (f : σ → α → ο → σ → Option β) : σ → List α → List β
  | _, [] => []
  | s, a :: as =>
    match step s a with
    | none => []
    | some (s', o) => (f s a o s').toList ++ along step f s' as

/-- A family of counters after one of them has been incremented. -/
theorem update_succ_apply {κ : Type} [DecidableEq κ] (f : κ → Nat) (k j : κ) :
    Function.update f k (f k + 1) j = f j + if k = j then 1 else 0 := by
  by_cases h : k = j
  · subst h
    rw [Function.update_self, if_pos rfl]
  · rw [Function.update_of_ne (Ne.symm h), if_neg h]
    rfl

/-- Performing the actions, every step meets a condition on the state it starts
from and its action. -/
def Meets (step : σ → α → Option (σ × ο)) (C : σ → α → Prop) (s : σ) (as : List α) : Prop :=
  ∀ al a ar ol t, as = al ++ a :: ar → Run step s al ol t → C t a

variable {step : σ → α → Option (σ × ο)}

theorem Meets.init {C : σ → α → Prop} {s : σ} {as : List α} {a : α} (h : Meets step C s (as ++ [a])) :
    Meets step C s as := by
  intro al b ar ol t has hrun
  exact h al b (ar ++ [a]) ol t (by rw [has, List.append_assoc, List.cons_append]) hrun

theorem Meets.last {C : σ → α → Prop} {s t : σ} {as : List α} {os : List ο} {a : α}
    (h : Meets step C s (as ++ [a])) (hrun : Run step s as os t) : C t a :=
  h as a [] os t rfl hrun

namespace Run

theorem single {s s' : σ} {a : α} {o : ο} (h : step s a = some (s', o)) :
    Run step s [a] [o] s' :=
  .snoc .nil h

theorem append {s s' s'' : σ} {as as' : List α} {os os' : List ο}
    (h : Run step s as os s') (h' : Run step s' as' os' s'') :
    Run step s (as ++ as') (os ++ os') s'' := by
  induction h' with
  | nil => rw [List.append_nil, List.append_nil]; exact h
  | snoc _ hs ih =>
    rw [← List.append_assoc, ← List.append_assoc]
    exact .snoc ih hs

theorem cons {s s' s'' : σ} {a : α} {o : ο} {as : List α} {os : List ο}
    (h : step s a = some (s', o)) (h' : Run step s' as os s'') :
    Run step s (a :: as) (o :: os) s'' :=
  append (single h) h'

theorem length_eq {s s' : σ} {as : List α} {os : List ο} (h : Run step s as os s') :
    os.length = as.length := by
  induction h with
  | nil => rfl
  | snoc _ _ ih => rw [List.length_append, List.length_append, ih, List.length_singleton, List.length_singleton]

/-- What holds at the start and survives each step, given the history, holds
after every run. -/
theorem history {I : σ → List ο → Prop} {s s' : σ} {as : List α} {os : List ο}
    (h : Run step s as os s') (h0 : I s [])
    (hstep : ∀ t os t' a o, I t os → step t a = some (t', o) → I t' (os ++ [o])) : I s' os := by
  induction h with
  | nil => exact h0
  | snoc _ hs ih => exact hstep _ _ _ _ _ ih hs

/-- `history` for runs all of whose actions meet `C`. -/
theorem history_of {C : α → Prop} {I : σ → List ο → Prop} {s s' : σ} {as : List α}
    {os : List ο} (h : Run step s as os s') (hC : ∀ a ∈ as, C a) (h0 : I s [])
    (hstep : ∀ t os t' a o, I t os → C a → step t a = some (t', o) → I t' (os ++ [o])) :
    I s' os := by
  induction h with
  | nil => exact h0
  | snoc _ hs ih =>
    have hpre := ih (fun a ha => hC a (List.mem_append_left _ ha))
    exact hstep _ _ _ _ _ hpre (hC _ (List.mem_append_right _ (List.mem_singleton_self _))) hs

/-- A counter that each step moves by what its observation is worth counts the
observations of a run: those of the one kind, less those of the other. -/
theorem count {f : σ → Nat} {p q : ο → Bool} {s s' : σ} {as : List α} {os : List ο}
    (h : Run step s as os s')
    (hstep : ∀ t a t' o, step t a = some (t', o) →
      f t' + (if q o then 1 else 0) = f t + if p o then 1 else 0) :
    f s' + os.countP q = f s + os.countP p := by
  induction h with
  | nil => rfl
  | @snoc t t' _ os a o _ hs ih =>
    have ho := hstep t a t' o hs
    rw [List.countP_append, List.countP_append, List.countP_singleton, List.countP_singleton]
    omega

/-- A fact about states that every step with an admitted observation preserves
holds at the end of a run with only such observations. -/
theorem stable {I : σ → Prop} {A : ο → Prop} {s s' : σ} {as : List α} {os : List ο}
    (h : Run step s as os s') (hA : ∀ o ∈ os, A o) (h0 : I s)
    (hstep : ∀ t t' a o, I t → A o → step t a = some (t', o) → I t') : I s' := by
  induction h with
  | nil => exact h0
  | snoc _ hs ih =>
    have hpre := ih (fun o ho => hA o (List.mem_append_left _ ho))
    exact hstep _ _ _ _ hpre (hA _ (List.mem_append_right _ (List.mem_singleton_self _))) hs

/-- A run whose history is a concatenation passes through a state between. -/
theorem split {s s'' : σ} {as : List α} {os : List ο} (h : Run step s as os s'') :
    ∀ {l r : List ο}, os = l ++ r →
      ∃ al ar s', as = al ++ ar ∧ Run step s al l s' ∧ Run step s' ar r s'' := by
  induction h with
  | nil =>
    intro l r e
    obtain ⟨rfl, rfl⟩ := List.append_eq_nil_iff.mp e.symm
    exact ⟨[], [], s, rfl, .nil, .nil⟩
  | @snoc t t'' _ os a o h hs ih =>
    intro l r e
    rcases List.eq_nil_or_concat r with rfl | ⟨r', x, rfl⟩
    · rw [List.append_nil] at e
      subst e
      exact ⟨_, [], _, (List.append_nil _).symm, .snoc h hs, .nil⟩
    · rw [List.concat_eq_append] at e ⊢
      rw [← List.append_assoc] at e
      obtain ⟨hpre, hx⟩ := List.append_inj' e rfl
      obtain ⟨al, ar, s', rfl, hl, hr⟩ := ih hpre
      obtain rfl : o = x := by simpa using hx
      exact ⟨al, ar ++ [a], s', List.append_assoc .., hl, .snoc hr hs⟩

/-- A run ends where its last step ends. -/
theorem last {s s'' : σ} {as : List α} {os : List ο} {o : ο}
    (h : Run step s as (os ++ [o]) s'') :
    ∃ as' a s', as = as' ++ [a] ∧ Run step s as' os s' ∧ step s' a = some (s'', o) := by
  generalize hm : os ++ [o] = m at h
  cases h with
  | nil => simp at hm
  | snoc h hs =>
    obtain ⟨rfl, ho⟩ := List.append_inj' hm rfl
    obtain rfl : o = _ := by simpa using ho
    exact ⟨_, _, _, rfl, h, hs⟩

/-- A run of no action. -/
theorem nil_inv {s s' : σ} {as : List α} {os : List ο} (h : Run step s as os s') (e : as = []) :
    os = [] ∧ s' = s := by
  cases h with
  | nil => exact ⟨rfl, rfl⟩
  | snoc _ _ => simp at e

/-- A run begins with its first step. -/
theorem uncons {s s' : σ} {bs : List α} {os : List ο} (h : Run step s bs os s') :
    ∀ {a : α} {as : List α}, bs = a :: as →
      ∃ t o os', os = o :: os' ∧ step s a = some (t, o) ∧ Run step t as os' s' := by
  induction h with
  | nil =>
    intro a as e
    cases e
  | @snoc u u' _ _ b o h hs ih =>
    intro a as e
    rcases List.append_eq_cons_iff.mp e with ⟨rfl, hb⟩ | ⟨as', rfl, rfl⟩
    · obtain ⟨rfl, rfl⟩ := h.nil_inv rfl
      cases hb
      exact ⟨u', o, [], rfl, hs, .nil⟩
    · obtain ⟨t, o', os', rfl, hfirst, hrest⟩ := ih rfl
      exact ⟨t, o', os' ++ [o], rfl, hfirst, hrest.snoc hs⟩

/-- Cutting a run at an observation: the run before it, its step, the run
after it. -/
theorem cut {s s'' : σ} {as : List α} {l r : List ο} {o : ο}
    (h : Run step s as (l ++ o :: r) s'') :
    ∃ al a ar t t', as = al ++ a :: ar ∧ Run step s al l t ∧ step t a = some (t', o) ∧
      Run step t' ar r s'' := by
  obtain ⟨al, ar, t', rfl, hl, hr⟩ := h.split (l := l ++ [o]) (List.append_cons l o r)
  obtain ⟨al', a, t, rfl, hl', hs⟩ := hl.last
  exact ⟨al', a, ar, t, t', by rw [List.append_assoc]; rfl, hl', hs, hr⟩

/-- Cutting a run at an action. -/
theorem cut_action {s s'' : σ} {a : α} {l r : List α} {os : List ο} (h : Run step s (l ++ a :: r) os s'') :
    ∃ ol o or t t', os = ol ++ o :: or ∧ Run step s l ol t ∧ step t a = some (t', o) ∧ Run step t' r or s'' := by
  induction l generalizing s os with
  | nil =>
    obtain ⟨t', o, or, rfl, hs, hr⟩ := h.uncons rfl
    exact ⟨[], o, or, s, t', rfl, .nil, hs, hr⟩
  | cons b l ih =>
    obtain ⟨u, x, os', rfl, hb, hrest⟩ := h.uncons rfl
    obtain ⟨ol, o, or, t, t', rfl, hl, hs, hr⟩ := ih hrest
    exact ⟨x :: ol, o, or, t, t', rfl, hl.cons hb, hs, hr⟩

/-- The first step of a computed run. -/
theorem exec_cons {s s' : σ} {a : α} {as : List α} {os : List ο}
    (h : exec step s (a :: as) = some (s', os)) :
    ∃ t o os', step s a = some (t, o) ∧ exec step t as = some (s', os') ∧ os = o :: os' := by
  simp only [exec] at h
  split at h
  · cases h
  · next t o hs =>
    obtain ⟨⟨u, os'⟩, he, hu⟩ := Option.map_eq_some_iff.mp h
    simp only [Prod.mk.injEq] at hu
    obtain ⟨rfl, rfl⟩ := hu
    exact ⟨t, o, os', hs, he, rfl⟩

/-- A computed run is a run. -/
theorem of_exec : ∀ {as : List α} {s s' : σ} {os : List ο},
    exec step s as = some (s', os) → Run step s as os s'
  | [], s, s', os, h => by
    simp only [exec, Option.some.injEq, Prod.mk.injEq] at h
    obtain ⟨rfl, rfl⟩ := h
    exact .nil
  | a :: as, s, s', os, h => by
    obtain ⟨t, o, os', hs, he, rfl⟩ := exec_cons h
    exact cons hs (of_exec he)

end Run

/-- The condition on the first step, and on those after it. -/
theorem Meets.cons {C : σ → α → Prop} {s : σ} {a : α} {as : List α} (h0 : C s a)
    (h : ∀ t o, step s a = some (t, o) → Meets step C t as) : Meets step C s (a :: as) := by
  intro al b ar ol t has hrun
  cases al with
  | nil =>
    obtain ⟨-, rfl⟩ := hrun.nil_inv rfl
    cases has
    exact h0
  | cons a' al =>
    cases has
    obtain ⟨t', o, ol', -, hs, hrest⟩ := hrun.uncons rfl
    exact h t' o hs al b ar ol' t rfl hrest

/-- A condition that the actions meet in every state. -/
theorem Meets.of_mem {C : σ → α → Prop} {s : σ} {as : List α} (h : ∀ a ∈ as, ∀ t, C t a) : Meets step C s as := by
  intro al a ar ol t has _
  exact h a (has ▸ List.mem_append_right al List.mem_cons_self) t

theorem Meets.nil {C : σ → α → Prop} {s : σ} : Meets step C s [] := by
  intro al a ar ol t has
  simp at has

/-- A test of the state and the action of each step. -/
def passes (step : σ → α → Option (σ × ο)) (test : σ → α → Bool) : σ → List α → Bool
  | _, [] => true
  | s, a :: as =>
    test s a &&
      match step s a with
      | none => true
      | some (t, _) => passes step test t as

/-- What passes a test that decides for the condition meets it. -/
theorem Meets.of_passes {C : σ → α → Prop} {test : σ → α → Bool} (htest : ∀ s a, test s a = true → C s a) {s : σ}
    {as : List α} (h : passes step test s as = true) : Meets step C s as := by
  induction as generalizing s with
  | nil => exact .nil
  | cons a as ih =>
    rw [passes, Bool.and_eq_true] at h
    apply Meets.cons (htest s a h.1)
    intro t o hs
    have hrest := h.2
    rw [hs] at hrest
    exact ih hrest

/-- The reading of a run grows by that of its last step. -/
theorem Run.along_snoc {β : Type} (f : σ → α → ο → σ → Option β) {s t t' : σ} {as : List α} {os : List ο}
    {a : α} {o : ο} (h : Run step s as os t) (hs : step t a = some (t', o)) :
    along step f s (as ++ [a]) = along step f s as ++ (f t a o t').toList := by
  induction as generalizing s os with
  | nil =>
    obtain ⟨-, rfl⟩ := h.nil_inv rfl
    simp [along, hs]
  | cons b as ih =>
    obtain ⟨u, o', os', -, hfirst, hrest⟩ := h.uncons rfl
    simp only [List.cons_append, along, hfirst, ih hrest, List.append_assoc]

/-- Two runs of related actions, from related states, stay related, and show
related observations. -/
theorem Run.lockstep {σ' α' ο' : Type} {step' : σ' → α' → Option (σ' × ο')} {R : σ → σ' → Prop}
    {A : α → α' → Prop} {O : ο → ο' → Prop}
    (hstep : ∀ s s' a a' t t' o o', R s s' → A a a' → step s a = some (t, o) → step' s' a' = some (t', o') →
      R t t' ∧ O o o') {as : List α} {as' : List α'} (hA : List.Forall₂ A as as') :
    ∀ {s s' t t' os os'}, R s s' → Run step s as os t → Run step' s' as' os' t' →
      R t t' ∧ List.Forall₂ O os os' := by
  induction hA with
  | nil =>
    intro s s' t t' os os' hR h h'
    obtain ⟨rfl, rfl⟩ := h.nil_inv rfl
    obtain ⟨rfl, rfl⟩ := h'.nil_inv rfl
    exact ⟨hR, .nil⟩
  | cons ha _ ih =>
    intro s s' t t' os os' hR h h'
    obtain ⟨u, o, ol, rfl, hs, hrest⟩ := h.uncons rfl
    obtain ⟨u', o', ol', rfl, hs', hrest'⟩ := h'.uncons rfl
    obtain ⟨hR', hO⟩ := hstep _ _ _ _ _ _ _ _ hR ha hs hs'
    obtain ⟨hfinal, hOs⟩ := ih hR' hrest hrest'
    exact ⟨hfinal, .cons hO hOs⟩

/-! ## Ledgers -/

/-- What has come in is what has been settled and what the slots still hold. -/
def Ledger {ι : Type} (slot : ι → Nat) (total settled : Nat) : Prop :=
  ∃ T : Finset ι, (∀ i, i ∉ T → slot i = 0) ∧ total = settled + ∑ i ∈ T, slot i

namespace Ledger

variable {ι : Type} {slot slot' : ι → Nat} {total total' settled settled' : Nat}

theorem empty (h : ∀ i, slot i = 0) : Ledger slot 0 0 :=
  ⟨∅, fun i _ => h i, rfl⟩

/-- A step that moves amounts through one slot. -/
theorem move [DecidableEq ι] (h : Ledger slot total settled) {i : ι} (hother : ∀ j, j ≠ i → slot' j = slot j)
    (hi : total' + settled + slot i = total + settled' + slot' i) : Ledger slot' total' settled' := by
  obtain ⟨T, hT, rfl⟩ := h
  -- the sum over the other slots stays, and slots outside `T` hold nothing
  have hbefore : ∑ j ∈ T, slot j = slot i + ∑ j ∈ T.erase i, slot j := by
    by_cases hmem : i ∈ T
    · exact (Finset.add_sum_erase T slot hmem).symm
    · rw [hT i hmem, Finset.erase_eq_of_notMem hmem, Nat.zero_add]
  have hafter : ∑ j ∈ insert i T, slot' j = slot' i + ∑ j ∈ T.erase i, slot j := by
    rw [← Finset.add_sum_erase (insert i T) slot' (Finset.mem_insert_self i T), Finset.erase_insert_eq_erase]
    congr 1
    exact Finset.sum_congr rfl (fun j hj => hother j (Finset.ne_of_mem_erase hj))
  refine ⟨insert i T, ?_, ?_⟩
  · intro j hj
    rw [Finset.mem_insert, not_or] at hj
    rw [hother j hj.1, hT j hj.2]
  · rw [hafter]
    omega

/-- A slot holds no more than what has come in and is not settled. -/
theorem slot_le [DecidableEq ι] (h : Ledger slot total settled) (i : ι) : settled + slot i ≤ total := by
  obtain ⟨T, hT, rfl⟩ := h
  apply Nat.add_le_add_left
  by_cases hmem : i ∈ T
  · rw [← Finset.add_sum_erase T slot hmem]
    exact Nat.le_add_right _ _
  · rw [hT i hmem]
    exact Nat.zero_le _

/-- With empty slots the two sides balance. -/
theorem balance (h : Ledger slot total settled) (hempty : ∀ i, slot i = 0) : total = settled := by
  obtain ⟨T, -, rfl⟩ := h
  rw [Finset.sum_eq_zero (fun i _ => hempty i), Nat.add_zero]

end Ledger

end Transition
