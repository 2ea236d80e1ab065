import WebhookRelay.Transition

/-
  Linearizability of a machine with clients against a sequential object. An
  `Object` says what an operation does to a value and what it answers. A machine
  `Linearizes` it when every step either leaves the value alone or commits one
  operation, and when a client's decided answer changes only at its own commit.

  Then every run is a sequential history (`Linearizes.legal`): the commits, in
  the order of the run, performed one after the other, give the value the run
  ends with and the answers the clients hold. Each client has committed exactly
  the operations whose answer it holds, one at most (`Linearizes.answers`), and
  the order of the commits respects real time, since a run cut in two commits
  the operations of its first part first (`Run.along_append`).
-/
namespace Transition

variable {τ β ρ σ α ο κ : Type}

/-- A sequential object. -/
structure Object (τ β ρ : Type) where
  apply : τ → β → τ × ρ

namespace Object

/-- Operations one after the other, with their answers. -/
def exec (obj : Object τ β ρ) : τ → List β → τ × List ρ
  | t, [] => (t, [])
  | t, b :: bs => (((exec obj (obj.apply t b).1 bs).1), (obj.apply t b).2 :: (exec obj (obj.apply t b).1 bs).2)

theorem exec_snoc (obj : Object τ β ρ) {t u v : τ} {bs : List β} {rs : List ρ} {b : β} {r : ρ}
    (h : obj.exec t bs = (u, rs)) (hb : obj.apply u b = (v, r)) : obj.exec t (bs ++ [b]) = (v, rs ++ [r]) := by
  induction bs generalizing t rs with
  | nil =>
    simp only [exec, Prod.mk.injEq] at h
    obtain ⟨rfl, rfl⟩ := h
    simp only [List.nil_append, exec, hb]
  | cons b' bs ih =>
    simp only [exec, Prod.mk.injEq] at h
    obtain ⟨hu, rfl⟩ := h
    have hrest := ih (Prod.ext hu rfl)
    simp only [List.cons_append, exec, hrest]

end Object

/-- A step function whose steps commit operations of an object. `commit` reads
the operation and its answer off a step, `caller` names the client of an
operation that has one, and `decided` is the answer a client holds. -/
structure Linearizes (step : σ → α → Option (σ × ο)) (obj : Object τ β ρ) (I : σ → Prop) (value : σ → τ)
    (commit : σ → α → ο → σ → Option (β × ρ)) (caller : β → Option κ) (decided : σ → κ → Option ρ) : Prop where
  keeps : ∀ s a s' o, I s → step s a = some (s', o) → I s'
  silent : ∀ s a s' o, I s → step s a = some (s', o) → commit s a o s' = none → value s' = value s
  effect : ∀ s a s' o b r, I s → step s a = some (s', o) → commit s a o s' = some (b, r) →
    obj.apply (value s) b = (value s', r)
  answered : ∀ s a s' o b r k, I s → step s a = some (s', o) → commit s a o s' = some (b, r) →
    caller b = some k → decided s k = none ∧ decided s' k = some r
  others : ∀ s a s' o k, I s → step s a = some (s', o) →
    (∀ b r, commit s a o s' = some (b, r) → caller b ≠ some k) → decided s' k = decided s k

/-- The reading of a run cut in two. -/
theorem Run.along_append {γ : Type} {step : σ → α → Option (σ × ο)} (f : σ → α → ο → σ → Option γ)
    {s t : σ} {as bs : List α} {os : List ο} (h : Run step s as os t) :
    along step f s (as ++ bs) = along step f s as ++ along step f t bs := by
  induction as generalizing s os with
  | nil =>
    obtain ⟨-, rfl⟩ := h.nil_inv rfl
    rfl
  | cons a as ih =>
    obtain ⟨u, o, os', -, hfirst, hrest⟩ := h.uncons rfl
    simp only [List.cons_append, along, hfirst, ih hrest, List.append_assoc]

/-- What a run does after a run of its first actions. -/
theorem Run.rest {step : σ → α → Option (σ × ο)} {s t u : σ} {as bs : List α} {os ol : List ο}
    (h : Run step s (as ++ bs) os u) (hl : Run step s as ol t) : ∃ or, Run step t bs or u := by
  induction as generalizing s os ol with
  | nil =>
    obtain ⟨-, rfl⟩ := hl.nil_inv rfl
    exact ⟨os, h⟩
  | cons a as ih =>
    obtain ⟨v, o, os', -, hfirst, hrest⟩ := h.uncons rfl
    obtain ⟨v', o', ol', -, hfirst', hrest'⟩ := hl.uncons rfl
    obtain ⟨rfl, -⟩ := Prod.mk.inj (Option.some.inj (hfirst.symm.trans hfirst'))
    exact ih hrest hrest'

/-- The answers of the operations of a client. -/
def answersOf [DecidableEq κ] (caller : β → Option κ) (k : κ) (cs : List (β × ρ)) : List ρ :=
  cs.filterMap (fun c => if caller c.1 = some k then some c.2 else none)

theorem answersOf_append [DecidableEq κ] (caller : β → Option κ) (k : κ) (cs ds : List (β × ρ)) :
    answersOf caller k (cs ++ ds) = answersOf caller k cs ++ answersOf caller k ds :=
  List.filterMap_append

namespace Linearizes

variable {step : σ → α → Option (σ × ο)} {obj : Object τ β ρ} {I : σ → Prop} {value : σ → τ}
  {commit : σ → α → ο → σ → Option (β × ρ)} {caller : β → Option κ} {decided : σ → κ → Option ρ}
  {s s' : σ} {as : List α} {os : List ο}

theorem run (hl : Linearizes step obj I value commit caller decided) (h : Run step s as os s') (hs : I s) :
    I s' := by
  induction h with
  | nil => exact hs
  | snoc _ hstep ih => exact hl.keeps _ _ _ _ ih hstep

/-- **A run is a sequential history.** Its commits, performed one after the
other, give the value it ends with and the answers they were given. -/
theorem legal (hl : Linearizes step obj I value commit caller decided) (h : Run step s as os s') (hs : I s) :
    obj.exec (value s) ((along step commit s as).map Prod.fst) =
      (value s', (along step commit s as).map Prod.snd) := by
  induction h with
  | nil => rfl
  | @snoc t t' as os a o hrun hstep ih =>
    have ht := hl.run hrun hs
    rw [hrun.along_snoc commit hstep]
    cases hc : commit t a o t' with
    | none =>
      rw [Option.toList_none, List.append_nil, hl.silent t a t' o ht hstep hc]
      exact ih
    | some c =>
      have happly := hl.effect t a t' o c.1 c.2 ht hstep hc
      rw [Option.toList_some, List.map_append, List.map_append, List.map_singleton, List.map_singleton]
      exact obj.exec_snoc ih happly

/-- **A client's answer is that of its one operation.** What a client comes to
hold is what its commits of the run have answered, and what it held before. -/
theorem answers [DecidableEq κ] (hl : Linearizes step obj I value commit caller decided)
    (h : Run step s as os s') (hs : I s) (k : κ) :
    (decided s' k).toList = (decided s k).toList ++ answersOf caller k (along step commit s as) := by
  induction h with
  | nil => exact (List.append_nil _).symm
  | @snoc t t' as os a o hrun hstep ih =>
    have ht := hl.run hrun hs
    rw [hrun.along_snoc commit hstep, answersOf_append, ← List.append_assoc, ← ih]
    by_cases hmine : ∃ b r, commit t a o t' = some (b, r) ∧ caller b = some k
    · obtain ⟨b, r, hc, hk⟩ := hmine
      obtain ⟨hbefore, hafter⟩ := hl.answered t a t' o b r k ht hstep hc hk
      rw [hbefore, hafter, hc]
      simp only [answersOf, Option.toList_some, Option.toList_none, List.nil_append, List.filterMap_cons, hk,
        if_true, List.filterMap_nil]
    · have hother : ∀ b r, commit t a o t' = some (b, r) → caller b ≠ some k := by
        intro b r hc hk
        exact hmine ⟨b, r, hc, hk⟩
      have hnone : answersOf caller k (commit t a o t').toList = [] := by
        cases hc : commit t a o t' with
        | none => rfl
        | some c =>
          have hne := hother c.1 c.2 hc
          simp only [answersOf, Option.toList_some, List.filterMap_cons, if_neg hne, List.filterMap_nil]
      rw [hl.others t a t' o k ht hstep hother, hnone, List.append_nil]

/-- A client that holds an answer commits no more. -/
theorem no_more [DecidableEq κ] (hl : Linearizes step obj I value commit caller decided)
    (h : Run step s as os s') (hs : I s) {k : κ} {r : ρ} (hk : decided s k = some r) :
    answersOf caller k (along step commit s as) = [] := by
  have hrun := hl.answers h hs k
  rw [hk] at hrun
  cases hd : decided s' k with
  | none =>
    rw [hd] at hrun
    cases hrun
  | some r' =>
    rw [hd] at hrun
    exact (List.cons.inj hrun).2.symm

end Linearizes

/-! ## Logs with keys -/

/-- The operations of a log: a client submits an entry, entries are purged. -/
inductive LogOp (κ ε : Type) where
  | submit (client : κ) (entry : ε)
  | purge (gone : ε → Bool)

inductive LogAnswer (ρ : Type) where
  | receipt (r : ρ)
  | purged (count : Nat)
  deriving DecidableEq

def LogOp.client {ε : Type} : LogOp κ ε → Option κ
  | .submit k _ => some k
  | .purge _ => none

section

variable {ε ν : Type} [DecidableEq ν]

/-- The entry a submission finds under its key. -/
def underKey (key : ε → Option ν) (log : List ε) (e : ε) : Option ε :=
  log.find? (fun x => key e ≠ none ∧ key x = key e)

/-- The log in which no two entries share a key. -/
def keyedLog (κ : Type) (key : ε → Option ν) (receipt : ε → ρ) : Object (List ε) (LogOp κ ε) (LogAnswer ρ) where
  apply log
    | .submit _ e =>
      match underKey key log e with
      | some x => (log, .receipt (receipt x))
      | none => (log ++ [e], .receipt (receipt e))
    | .purge gone => (log.filter (fun x => !gone x), .purged (log.filter gone).length)

variable {key : ε → Option ν} {receipt : ε → ρ} {log : List ε} {e : ε}

/-- A submission whose key is not taken adds its entry. -/
theorem keyedLog_fresh (k : κ) (h : ∀ x ∈ log, ¬ (key e ≠ none ∧ key x = key e)) :
    (keyedLog κ key receipt).apply log (.submit k e) = (log ++ [e], .receipt (receipt e)) := by
  have hnone : underKey key log e = none := by
    rw [underKey, List.find?_eq_none]
    intro x hx
    rw [decide_eq_true_eq]
    exact h x hx
  simp only [keyedLog, hnone]

/-- A submission whose key is taken finds the entry that has it. -/
theorem keyedLog_found (k : κ) {x : ε} (hx : x ∈ log) (hkey : key e ≠ none ∧ key x = key e)
    (hunique : ∀ y ∈ log, key y = key e → y = x) :
    (keyedLog κ key receipt).apply log (.submit k e) = (log, .receipt (receipt x)) := by
  have hsome : underKey key log e = some x := by
    cases hfind : underKey key log e with
    | none =>
      have hnot := List.find?_eq_none.mp hfind x hx
      rw [decide_eq_true_eq] at hnot
      exact absurd hkey hnot
    | some y =>
      have hy := List.find?_some hfind
      rw [decide_eq_true_eq] at hy
      rw [hunique y (List.mem_of_find?_eq_some hfind) hy.2]
  simp only [keyedLog, hsome]

end

end Transition
