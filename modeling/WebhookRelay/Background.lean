import WebhookRelay.Admission
import WebhookRelay.Traversals

/-
  The transactions of the background: the relay update a worker runs when its
  job has an outcome, and the deletion of a cleanup. An update never makes a row
  and never touches `received_at`, and each update addresses one id; so any two
  of them commute (`right_comm`), unless both update one event.

  What is proved: `background_commutes`, pending transactions with at most one
  update for each event leave the same table, and delete the same number of rows
  in all, in whatever order they are executed.
-/
namespace WebhookRelay

open Py

/-- A pending transaction. -/
inductive BackgroundTxn where
  | relayUpdate (id : String) (result : RelayOutcome)
  | cleanup (cutoff : Moment)

/-- The event a relay update is for. -/
def BackgroundTxn.updates : BackgroundTxn → Option String
  | .relayUpdate id _ => some id
  | .cleanup _ => none

/-- A transaction on the table, with the count of the rows deleted so far. -/
def execute (env : Env) (sn : Store × Nat) : BackgroundTxn → Store × Nat
  | .relayUpdate id result => (persistRelay env sn.1 id result, sn.2)
  | .cleanup cutoff => (sn.1.deleteBefore cutoff, sn.2 + (sn.1.expired cutoff).length)

/-! ## Where the transactions come from -/

section

variable {env : Env} {w w' : World} {a : Act} {o : Obs}

/-- The step that records a job's outcome executes its relay update. -/
theorem execute_recorded {p t n : Nat} {id : String} {out : RelayOutcome}
    (hm : Move env w a w' (.job p t id (.recorded out))) :
    execute env (w.store, n) (.relayUpdate id out) = (w'.store, n) := by
  rcases hm.store with ⟨-, hn⟩ | ⟨r, i, ho, -⟩ | ⟨id', result, ho, hs⟩ | ⟨cutoff, ho, -⟩
  · cases hn
  · cases ho
  · cases ho
    rw [execute, hs]
  · cases ho

/-- The cleanup step executes its deletion. -/
theorem execute_deleted {ids : List String} {n : Nat} (hm : Move env w a w' (.deleted ids)) :
    ∃ cutoff, execute env (w.store, n) (.cleanup cutoff) = (w'.store, n + ids.length) := by
  obtain ⟨cutoff, rfl, hs⟩ := hm.deleted_inv
  exact ⟨cutoff, by rw [execute, hs, List.length_map]⟩

/-- `cleanup_old_events` executes one deletion, or none. -/
theorem execute_cleanupOldEvents (env : Env) (s : Store) (retentionDays : Int) (now : Moment) :
    (∃ cutoff n, cleanupOldEvents s retentionDays now = ((execute env (s, 0) (.cleanup cutoff)).1, .ok n) ∧
        (execute env (s, 0) (.cleanup cutoff)).2 = n) ∨
      (cleanupOldEvents s retentionDays now).1 = s := by
  obtain ⟨cutoff, h⟩ | ⟨exc, h⟩ := cleanupOldEvents_cases s retentionDays now
  · exact .inl ⟨cutoff, _, h, Nat.zero_add _⟩
  · exact .inr (congrArg Prod.fst h)

end

/-! ## Any two commute -/

section

variable (s : Store) (c d : Moment) (v u : RelayColumns) {id jd : String}

theorem setRelay_receivedAt (id : String) (v : RelayColumns) (e : Event) :
    (Store.setRelay id v e).receivedAt = e.receivedAt :=
  congrArg IntakeColumns.receivedAt (Store.setRelay_intake id v e)

theorem deleteBefore_comm : (s.deleteBefore c).deleteBefore d = (s.deleteBefore d).deleteBefore c := by
  apply Store.ext_rows
  show List.filter _ (List.filter _ s.rows) = List.filter _ (List.filter _ s.rows)
  rw [List.filter_filter, List.filter_filter]
  apply List.filter_congr
  intro e _
  exact Bool.and_comm ..

/-- A deletion splits the rows in those deleted and those left. -/
theorem expired_add_deleteBefore :
    (s.expired c).length + (s.deleteBefore c).rows.length = s.rows.length := by
  rw [Store.expired, Store.deleteBefore,
    List.length_eq_length_filter_add (l := s.rows) (fun e => decide (e.receivedAt.utc < c))]
  simp only [decide_not]

/-- Two deletions delete the same number of rows in either order. -/
theorem expired_comm : (s.expired c).length + ((s.deleteBefore c).expired d).length =
    (s.expired d).length + ((s.deleteBefore d).expired c).length := by
  have hc := expired_add_deleteBefore s c
  have hcd := expired_add_deleteBefore (s.deleteBefore c) d
  have hd := expired_add_deleteBefore s d
  have hdc := expired_add_deleteBefore (s.deleteBefore d) c
  rw [deleteBefore_comm] at hcd
  omega

theorem update_deleteBefore : (s.update id v).deleteBefore c = (s.deleteBefore c).update id v := by
  apply Store.ext_rows
  show List.filter _ (List.map _ s.rows) = List.map _ (List.filter _ s.rows)
  rw [List.filter_map]
  congr 1
  apply List.filter_congr
  intro e _
  simp only [Function.comp_apply, setRelay_receivedAt]

/-- An update expires no row. -/
theorem expired_update : ((s.update id v).expired c).length = (s.expired c).length := by
  have h := expired_add_deleteBefore (s.update id v) c
  have h' := expired_add_deleteBefore s c
  have hlen : ∀ t : Store, (t.update id v).rows.length = t.rows.length := fun t => List.length_map _
  rw [update_deleteBefore, hlen, hlen] at h
  omega

theorem setRelay_comm (h : id ≠ jd) (e : Event) :
    Store.setRelay id v (Store.setRelay jd u e) = Store.setRelay jd u (Store.setRelay id v e) := by
  by_cases hi : e.id = id
  · have hj : ¬ e.id = jd := fun hj => h (hi.symm.trans hj)
    simp only [Store.setRelay, if_pos hi, if_neg hj]
  · simp only [Store.setRelay, if_neg hi]
    split
    · rfl
    · rfl

/-- Updates of different events commute. -/
theorem update_comm (h : id ≠ jd) : (s.update id v).update jd u = (s.update jd u).update id v := by
  apply Store.ext_rows
  show List.map _ (List.map _ s.rows) = List.map _ (List.map _ s.rows)
  rw [List.map_map, List.map_map]
  exact List.map_congr_left (fun e _ => (setRelay_comm v u h e).symm)

end

/-- Two transactions commute unless they update the same event. -/
theorem right_comm (env : Env) {x y : BackgroundTxn}
    (h : ∀ id, x.updates = some id → y.updates = some id → x = y) (sn : Store × Nat) :
    execute env (execute env sn x) y = execute env (execute env sn y) x := by
  cases x with
  | relayUpdate id result =>
    cases y with
    | relayUpdate jd result' =>
      by_cases hid : id = jd
      · subst hid
        rw [h id rfl rfl]
      · simp only [execute, persistRelay]
        rw [update_comm sn.1 _ _ hid]
    | cleanup cutoff =>
      simp only [execute, persistRelay]
      rw [update_deleteBefore, expired_update]
  | cleanup cutoff =>
    cases y with
    | relayUpdate jd result' =>
      simp only [execute, persistRelay]
      rw [update_deleteBefore, expired_update]
    | cleanup cutoff' =>
      simp only [execute]
      rw [deleteBefore_comm, Nat.add_assoc, Nat.add_assoc, expired_comm]

/-- In a collection with at most one update for each event, two updates of one
event are the same. -/
theorem updates_unique {txns : List BackgroundTxn} (h : (txns.filterMap BackgroundTxn.updates).Nodup)
    {x y : BackgroundTxn} (hx : x ∈ txns) (hy : y ∈ txns) {id : String}
    (hxi : x.updates = some id) (hyi : y.updates = some id) : x = y := by
  rw [List.Nodup, List.pairwise_filterMap] at h
  have hsymm : Std.Symm (fun a b : BackgroundTxn =>
      ∀ i, a.updates = some i → ∀ j, b.updates = some j → i ≠ j) :=
    ⟨fun _ _ hab i hi j hj hij => hab j hj i hi hij.symm⟩
  by_contra hne
  exact h.forall hx hy hne id hxi id hyi rfl

/-- **Background work commutes.** -/
theorem background_commutes (env : Env) (s : Store) {txns txns' : List BackgroundTxn}
    (hids : (txns.filterMap BackgroundTxn.updates).Nodup) (hperm : txns.Perm txns') :
    txns.foldl (execute env) (s, 0) = txns'.foldl (execute env) (s, 0) :=
  hperm.foldl_eq' (fun _ hx _ hy sn => right_comm env (fun _ hxi hyi => updates_unique hids hx hy hxi hyi) sn)
    (s, 0)

/-- Three rows, received one after another. -/
def agedRows : Store where
  rows := [sampleRow 1 10, sampleRow 2 20, sampleRow 3 30]
  ids_nodup := by decide
  keys_unique := by decide

def deliveredRelayResult : RelayOutcome where
  attempted := true
  success := true
  reason := some "success"
  statusCode := some 200
  attempts := 1

/-- Two updates and two cleanups. The first row is deleted by either cleanup,
whichever comes first, the second before or after its update. -/
def agedTxns : List BackgroundTxn :=
  [.relayUpdate (sampleRow 2 20).id deliveredRelayResult, .cleanup ⟨15, by decide⟩,
    .relayUpdate (sampleRow 3 30).id queueFullRelayResult, .cleanup ⟨25, by decide⟩]

/-- In both orders two rows are deleted, one of them updated before or not at
all, and the one that is left has its outcome. -/
theorem background_commutes_aged :
    agedTxns.foldl (execute sampleEnv) (agedRows, 0) = agedTxns.reverse.foldl (execute sampleEnv) (agedRows, 0) ∧
      (agedTxns.foldl (execute sampleEnv) (agedRows, 0)).2 = 2 ∧
      (agedTxns.foldl (execute sampleEnv) (agedRows, 0)).1.rows.map (fun e => (e.id, e.relayReason)) =
        [((sampleRow 3 30).id, some "relay_queue_full")] :=
  ⟨background_commutes sampleEnv agedRows (by decide) (List.reverse_perm agedTxns).symm, by decide +kernel,
    by decide +kernel⟩

end WebhookRelay
