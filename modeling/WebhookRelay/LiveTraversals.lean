import WebhookRelay.Conservation
import WebhookRelay.Simulation
import WebhookRelay.Traversals

/-
  Paging through a service at work. `Traversals` speaks of a client whose pages
  are interleaved with transactions on a table; here the other party is the whole
  service: requests, workers, cleanups, startups and shutdowns, step by step, from
  any state it can reach. A step of the service is one transaction of that table
  or none (`browse_simulates`), and an inserted id is new to it. So the client
  misses no event that stays, and sees none twice (`live_traversal`).
-/
namespace WebhookRelay

open Py Transition

/-! ## The machine -/

/-- A client that pages through the events of a service. -/
structure Browse where
  world : World
  cursor : Option String
  ended : Bool

def Browse.start (w : World) : Browse where
  world := w
  cursor := none
  ended := false

inductive BrowseAct where
  | service (a : Act)
  | page

inductive BrowseObs where
  | service (o : Obs)
  | page (resp : EventsListResponse)
  | failed (exc : PyExc)

def Browse.step (env : Env) (coll : Collation) (limit : Nat) (source : Option String) (b : Browse) :
    BrowseAct → Option (Browse × BrowseObs)
  | .service a =>
    match WebhookRelay.step env b.world a with
    | none => none
    | some (w, o) => some ({ b with world := w }, .service o)
  | .page =>
    if b.ended then none
    else
      match listEvents env coll b.world.store limit b.cursor source with
      | .ok resp => some ({ b with cursor := resp.nextCursor, ended := resp.nextCursor.isNone }, .page resp)
      | .error exc => some (b, .failed exc)

/-- The part of a history that is the service's. -/
def BrowseObs.service? : BrowseObs → Option Obs
  | .service o => some o
  | .page _ | .failed _ => none

/-- What the client sees. -/
def BrowseObs.view : BrowseObs → List TraversalObs
  | .service _ => []
  | .page resp => [.page resp]
  | .failed exc => [.failed exc]

def TraversalObs.view : TraversalObs → List TraversalObs
  | .changed => []
  | .page resp => [.page resp]
  | .failed exc => [.failed exc]

/-- The events the client has been given. -/
def browsed (os : List BrowseObs) : List EventItem := returned (os.flatMap BrowseObs.view)

section

variable {env : Env} {coll : Collation} {limit : Nat} {source : Option String}

/-- What a client and the service can do. -/
inductive Browse.Moved (env : Env) (coll : Collation) (limit : Nat) (source : Option String) (b : Browse) :
    BrowseAct → Browse → BrowseObs → Prop where
  | service {a : Act} {w : World} {o : Obs} (hs : WebhookRelay.step env b.world a = some (w, o)) :
      Moved env coll limit source b (.service a) { b with world := w } (.service o)
  | page {resp : EventsListResponse} (running : b.ended = false)
      (hp : listEvents env coll b.world.store limit b.cursor source = .ok resp) :
      Moved env coll limit source b .page
        { b with cursor := resp.nextCursor, ended := resp.nextCursor.isNone } (.page resp)
  | failed {exc : PyExc} (running : b.ended = false)
      (hp : listEvents env coll b.world.store limit b.cursor source = .error exc) :
      Moved env coll limit source b .page b (.failed exc)

theorem Browse.Moved.of_step {b b' : Browse} {a : BrowseAct} {o : BrowseObs}
    (h : Browse.step env coll limit source b a = some (b', o)) : Moved env coll limit source b a b' o := by
  cases a with
  | service a =>
    simp only [Browse.step] at h
    split at h
    · cases h
    · next w o hs =>
      cases h
      exact .service hs
  | page =>
    simp only [Browse.step] at h
    split at h
    · cases h
    · next hended =>
      have running : b.ended = false := Bool.eq_false_iff.mpr hended
      split at h
      · next resp hp =>
        cases h
        exact .page running hp
      · next exc hp =>
        cases h
        exact .failed running hp

/-! ## The simulation -/

/-- The table of a traversal follows a service: what it has held, the service has
inserted. -/
structure Follows (env : Env) (b : Browse) (t : Traversal) : Prop where
  store : t.store = b.world.store
  cursor : t.cursor = b.cursor
  ended : t.ended = b.ended
  held : ∃ as os, Run (WebhookRelay.step env) World.initial as os b.world ∧
    ∀ c ∈ t.held, ∃ r row, .inserted r row ∈ os ∧ row.id = c.id

theorem follows_start {w : World} {as : List Act} {os : List Obs}
    (h : Run (WebhookRelay.step env) World.initial as os w) : Follows env (.start w) (.start w.store) := by
  refine ⟨rfl, rfl, rfl, as, os, h, ?_⟩
  intro c hc
  obtain ⟨e, he, rfl⟩ := List.mem_map.mp hc
  obtain ⟨r, row, hins, hcols⟩ := row_inserted h e he
  exact ⟨r, row, hins, congrArg IntakeColumns.id hcols⟩

/-- A step of the service is a transaction of the table, or none of them. -/
theorem browse_simulates (env : Env) (coll : Collation) (limit : Nat) (source : Option String) :
    Simulates (Browse.step env coll limit source) (Traversal.step env coll limit source) (Follows env)
      BrowseObs.view TraversalObs.view := by
  intro b t a b' o hR hstep
  obtain ⟨hstore, hcursor, hended, as, os, hrun, hheld⟩ := hR
  cases Browse.Moved.of_step hstep with
  | @service a w o hs =>
    have hrun' := hrun.snoc hs
    have keep : ∀ c ∈ t.held, ∃ r row, .inserted r row ∈ os ++ [o] ∧ row.id = c.id := by
      intro c hc
      obtain ⟨r, row, hins, hid⟩ := hheld c hc
      exact ⟨r, row, List.mem_append_left _ hins, hid⟩
    rcases (Move.of_step hs).store with ⟨hw, -⟩ | ⟨r, i, rfl, hh, hw⟩ | ⟨id, result, -, hw⟩ | ⟨cutoff, -, hw⟩
    · exact matched_idle ⟨hstore.trans hw.symm, hcursor, hended, _, _, hrun', keep⟩ rfl
    · -- the id of the new row is none the table has held
      have hfresh : (i.row env).id ∉ t.held.map (fun c => c.id) := by
        intro hmem
        obtain ⟨c, hc, hid⟩ := List.mem_map.mp hmem
        obtain ⟨r', row, hins, hrow⟩ := hheld c hc
        exact not_stored_inserting hrun hh r' row hins (hrow.trans hid)
      have hinsert : Traversal.step env coll limit source t (.insert (i.row env)) =
          some ({ t with store := w.store, held := (i.row env).toIntakeColumns :: t.held }, .changed) := by
        simp only [Traversal.step, if_neg hfresh, hstore, hw]
      refine matched_by hinsert ⟨rfl, hcursor, hended, _, _, hrun', ?_⟩ rfl
      intro c hc
      rcases List.mem_cons.mp hc with rfl | hc
      · exact ⟨r, i.row env, List.mem_append_right _ (List.mem_singleton_self _), rfl⟩
      · exact keep c hc
    · have hrelay : Traversal.step env coll limit source t (.relay id ((relayUpdateValues result).stored env.dropsTz)) =
          some ({ t with store := w.store }, .changed) := by
        rw [hw, ← hstore]
        rfl
      exact matched_by hrelay ⟨rfl, hcursor, hended, _, _, hrun', keep⟩ rfl
    · have hcleanup : Traversal.step env coll limit source t (.cleanup cutoff) =
          some ({ t with store := w.store }, .changed) := by
        rw [hw, ← hstore]
        rfl
      exact matched_by hcleanup ⟨rfl, hcursor, hended, _, _, hrun', keep⟩ rfl
  | @page resp running hp =>
    have hpage : Traversal.step env coll limit source t .page =
        some ({ t with cursor := resp.nextCursor, ended := resp.nextCursor.isNone }, .page resp) := by
      simp only [Traversal.step, hended, running, Bool.false_eq_true, if_false, hstore, hcursor, hp]
    exact matched_by hpage ⟨hstore, rfl, rfl, as, os, hrun, hheld⟩ rfl
  | @failed exc running hp =>
    have hpage : Traversal.step env coll limit source t .page = some (t, .failed exc) := by
      simp only [Traversal.step, hended, running, Bool.false_eq_true, if_false, hstore, hcursor, hp]
    exact matched_by hpage ⟨hstore, hcursor, hended, as, os, hrun, hheld⟩ rfl

/-- The service's part of an interleaving is a run of the service. -/
theorem browse_service {b b' : Browse} {as : List BrowseAct} {os : List BrowseObs}
    (h : Run (Browse.step env coll limit source) b as os b') :
    ∃ as', Run (WebhookRelay.step env) b.world as' (os.filterMap BrowseObs.service?) b'.world := by
  induction h with
  | nil => exact ⟨[], .nil⟩
  | snoc _ hstep ih =>
    obtain ⟨as', hrun⟩ := ih
    rw [readings_snoc]
    cases Browse.Moved.of_step hstep with
    | @service a w o hs => exact ⟨as' ++ [a], hrun.snoc hs⟩
    | page _ _ | failed _ _ =>
      refine ⟨as', ?_⟩
      rw [show BrowseObs.service? _ = none from rfl, Option.toList_none, List.append_nil]
      exact hrun

theorem returned_view (ps : List TraversalObs) : returned (ps.flatMap TraversalObs.view) = returned ps := by
  induction ps with
  | nil => rfl
  | cons p ps ih =>
    rw [List.flatMap_cons, returned, List.flatMap_append]
    change _ ++ returned (ps.flatMap TraversalObs.view) = p.events ++ returned ps
    rw [ih]
    apply congrArg (· ++ returned ps)
    cases p with
    | changed => rfl
    | page resp => exact List.append_nil _
    | failed exc => rfl

/-- **Paging through a live service.** From every state the service can reach,
and whatever it does between the pages: every call of `list_events` returns a
page, which `listEventsResponse_ok_iff` says when it can be rendered; the pages are
strictly descending in (received_at, id), repeat no event and match the filter;
and once a page has no `next_cursor`, every matching event that was inserted
before the first page and has not been deleted since has been returned once. -/
theorem live_traversal {as₀ : List Act} {os₀ : List Obs} {w₀ : World}
    (h₀ : Run (WebhookRelay.step env) World.initial as₀ os₀ w₀) (hl : 1 ≤ limit) {as : List BrowseAct}
    {os : List BrowseObs} {b : Browse} (h : Run (Browse.step env coll limit source) (.start w₀) as os b) :
    (∀ exc, .failed exc ∉ os) ∧
    (b.ended = false → ∃ b' resp, Browse.step env coll limit source b .page = some (b', .page resp)) ∧
    (browsed os).Pairwise (fun x y => y.receivedAt.utc < x.receivedAt.utc ∨
      (y.receivedAt.utc = x.receivedAt.utc ∧ coll.lt y.eventId x.eventId = true)) ∧
    ((browsed os).map (fun x => x.eventId)).Nodup ∧
    (∀ x ∈ browsed os, ∀ name, source = some name → name ≠ "" → x.source = name) ∧
    (b.ended = true → ∀ r e, .inserted r e ∈ os₀ → sourceMatches source e = true →
      e.id ∉ deletedIds (os₀ ++ os.filterMap BrowseObs.service?) →
      ((browsed os).map (fun x => x.eventId)).count e.id = 1) := by
  obtain ⟨bs, ps, t, hrun, hfollow, hview⟩ := (browse_simulates env coll limit source).run (follows_start h₀) h
  obtain ⟨hanswered, hnext, hsorted, hnodup, hmatch, honce, -⟩ := traversal_exact env coll w₀.store source hl hrun
  have hreturned : returned ps = browsed os := by
    rw [browsed, ← hview, returned_view]
  rw [hreturned] at hsorted hnodup hmatch honce
  refine ⟨?_, ?_, hsorted, hnodup, hmatch, ?_⟩
  · intro exc hmem
    have hseen : TraversalObs.failed exc ∈ ps.flatMap TraversalObs.view := by
      rw [hview]
      exact List.mem_flatMap.mpr ⟨_, hmem, List.mem_singleton_self _⟩
    obtain ⟨p, hp, hexc⟩ := List.mem_flatMap.mp hseen
    cases p with
    | changed => cases hexc
    | page resp => cases List.mem_singleton.mp hexc
    | failed exc' => exact hanswered exc' hp
  · intro running
    obtain ⟨t', resp, hstep⟩ := hnext (hfollow.ended.trans running)
    cases Traversal.Moved.of_step hstep with
    | page _ hp =>
      rw [hfollow.store, hfollow.cursor] at hp
      refine ⟨{ b with cursor := resp.nextCursor, ended := resp.nextCursor.isNone }, resp, ?_⟩
      simp only [Browse.step, running, Bool.false_eq_true, if_false, hp]
  · intro hended r e hins hsource hdel
    obtain ⟨as', hservice⟩ := browse_service h
    have hkept : ∀ ids, Obs.deleted ids ∈ os₀ ++ os.filterMap BrowseObs.service? → e.id ∉ ids := by
      intro ids hmem hid
      exact hdel (List.mem_flatMap.mpr ⟨_, hmem, hid⟩)
    obtain ⟨e₀, hget₀, hcols⟩ := inserted_fetched h₀ hins (fun ids hmem => hkept ids (List.mem_append_left _ hmem))
    obtain ⟨e₁, hget₁, -⟩ := inserted_fetched (h₀.append hservice) (List.mem_append_left _ hins) hkept
    obtain ⟨hrow₀, hid₀⟩ := Store.get_eq_some.mp hget₀
    obtain ⟨hrow₁, hid₁⟩ := Store.get_eq_some.mp hget₁
    have hsource₀ : sourceMatches source e₀ = sourceMatches source e := by
      simp only [sourceMatches.eq_def, congrArg IntakeColumns.source hcols]
    rw [← hid₀]
    apply honce (hfollow.ended.trans hended) e₀ hrow₀ (hsource₀.trans hsource)
    rw [hfollow.store]
    exact ⟨e₁, hrow₁, hid₁.trans hid₀.symm⟩

end

/-- Two events are stored; a third arrives between their pages. -/
def storedActs : List Act :=
  [.startup 0, .request 0 1 (sampleRequest none "\x7b\"a\":1\x7d") (sampleDraws 1 10),
    .request 0 2 (sampleRequest none "\x7b\"b\":2\x7d") (sampleDraws 2 20), .handler 1, .handler 2]

def browseActs : List BrowseAct :=
  [.page, .service (.request 0 3 (sampleRequest none "\x7b\"c\":3\x7d") (sampleDraws 3 30)),
    .service (.handler 3), .page]

theorem live_traversal_arrival :
    ∃ w₀ os₀ b os, exec (step sampleEnv) World.initial storedActs = some (w₀, os₀) ∧
      exec (Browse.step sampleEnv codePointOrder 1 none) (.start w₀) browseActs = some (b, os) ∧ b.ended = true ∧
      ((browsed os).map (fun x => x.eventId)).count (sampleDraws 1 10).eventUuid.text = 1 := by
  have hrun : (exec (step sampleEnv) World.initial storedActs).bind (fun r =>
      (exec (Browse.step sampleEnv codePointOrder 1 none) (.start r.1) browseActs).map (fun r' =>
        (insertedIds r.2, deletedIds (r.2 ++ r'.2.filterMap BrowseObs.service?), r'.1.ended))) =
      some ([(sampleDraws 1 10).eventUuid.text, (sampleDraws 2 20).eventUuid.text], [], true) := by
    decide +kernel
  obtain ⟨⟨w₀, os₀⟩, h₀, hrest⟩ := Option.bind_eq_some_iff.mp hrun
  obtain ⟨⟨b, os⟩, h, hfacts⟩ := Option.map_eq_some_iff.mp hrest
  obtain ⟨hids, hfacts⟩ := Prod.mk.injEq .. ▸ hfacts
  obtain ⟨hdel, hended⟩ := Prod.mk.injEq .. ▸ hfacts
  obtain ⟨r, e, hins, hid⟩ := mem_insertedIds.mp (hids ▸ List.mem_cons_self :
    (sampleDraws 1 10).eventUuid.text ∈ insertedIds os₀)
  obtain ⟨-, -, -, -, -, honce⟩ := live_traversal (Run.of_exec h₀) (Nat.le_refl 1) (Run.of_exec h)
  have hcount := honce hended r e hins rfl (by rw [hdel]; exact List.not_mem_nil)
  rw [hid] at hcount
  exact ⟨w₀, os₀, b, os, h₀, h, hended, hcount⟩

end WebhookRelay
