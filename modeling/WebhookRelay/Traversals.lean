import WebhookRelay.Pagination

/-
  Traversals of `GET /events`. A client asks for a page without a cursor and
  passes each `next_cursor` to the next call; between two calls other requests
  insert events, update relay columns and delete old rows. A page is what the
  handler returns; whether its body can be rendered is the subject of `Reads`.

  `Tracked` is what holds after every step, whatever happens between the pages.
  It rests on the table's ids being fresh: the intake columns of a row never
  change, so a key that was passed is never met again.
-/
namespace WebhookRelay

open Py Transition Keyset

/-! ## The machine -/

/-- A traversal in progress: the table, the intake columns of every row it has
held, the cursor of the next call, and whether a page had no `next_cursor`. -/
structure Traversal where
  store : Store
  held : List IntakeColumns
  cursor : Option String
  ended : Bool

def Traversal.start (s : Store) : Traversal where
  store := s
  held := s.rows.map (fun e => e.toIntakeColumns)
  cursor := none
  ended := false

/-- The transactions on the table, and the next call of the traversal. -/
inductive TraversalAct where
  | insert (e : Event)
  | relay (id : String) (v : RelayColumns)
  | cleanup (cutoff : Moment)
  | page

inductive TraversalObs where
  | changed
  | page (resp : EventsListResponse)
  | failed (exc : PyExc)

/-- One step. An insert brings a row whose id the table has never held. -/
def Traversal.step (env : Env) (coll : Collation) (limit : Nat) (source : Option String) (t : Traversal) :
    TraversalAct → Option (Traversal × TraversalObs)
  | .insert e =>
    if e.id ∈ t.held.map (fun c => c.id) then none
    else
      match t.store.insert e with
      | none => none
      | some s => some ({ t with store := s, held := e.toIntakeColumns :: t.held }, .changed)
  | .relay id v => some ({ t with store := t.store.update id v }, .changed)
  | .cleanup cutoff => some ({ t with store := t.store.deleteBefore cutoff }, .changed)
  | .page =>
    if t.ended then none
    else
      match listEvents env coll t.store limit t.cursor source with
      | .ok resp => some ({ t with cursor := resp.nextCursor, ended := resp.nextCursor.isNone }, .page resp)
      | .error exc => some (t, .failed exc)

/-- The events an observation brings. -/
def TraversalObs.events : TraversalObs → List EventItem
  | .page resp => resp.events
  | _ => []

/-- The concatenated pages of a history. -/
def returned (os : List TraversalObs) : List EventItem := os.flatMap TraversalObs.events

@[simp] theorem returned_snoc (os : List TraversalObs) (o : TraversalObs) :
    returned (os ++ [o]) = returned os ++ o.events := by
  rw [returned, List.flatMap_append, List.flatMap_singleton, returned]

/-- What a step can do. -/
inductive Traversal.Moved (env : Env) (coll : Collation) (limit : Nat) (source : Option String)
    (t : Traversal) : TraversalAct → Traversal → TraversalObs → Prop where
  | insert {e : Event} {s : Store} (fresh : ∀ c ∈ t.held, c.id ≠ e.id) (hs : t.store.insert e = some s) :
      Moved env coll limit source t (.insert e)
        { t with store := s, held := e.toIntakeColumns :: t.held } .changed
  | relay (id : String) (v : RelayColumns) :
      Moved env coll limit source t (.relay id v) { t with store := t.store.update id v } .changed
  | cleanup (cutoff : Moment) :
      Moved env coll limit source t (.cleanup cutoff) { t with store := t.store.deleteBefore cutoff } .changed
  | page {resp : EventsListResponse} (running : t.ended = false)
      (hp : listEvents env coll t.store limit t.cursor source = .ok resp) :
      Moved env coll limit source t .page
        { t with cursor := resp.nextCursor, ended := resp.nextCursor.isNone } (.page resp)
  | failed {exc : PyExc} (running : t.ended = false)
      (hp : listEvents env coll t.store limit t.cursor source = .error exc) :
      Moved env coll limit source t .page t (.failed exc)

section

variable {env : Env} {coll : Collation} {limit : Nat} {source : Option String} {s₀ : Store}

theorem Traversal.Moved.of_step {t t' : Traversal} {a : TraversalAct} {o : TraversalObs}
    (h : Traversal.step env coll limit source t a = some (t', o)) : Moved env coll limit source t a t' o := by
  cases a with
  | insert e =>
    simp only [Traversal.step] at h
    split at h
    · cases h
    · next hfresh =>
      split at h
      · cases h
      · next s hs =>
        cases h
        refine .insert ?_ hs
        intro c hc hid
        exact hfresh (List.mem_map.mpr ⟨c, hc, hid⟩)
  | relay id v =>
    cases h
    exact .relay id v
  | cleanup cutoff =>
    cases h
    exact .cleanup cutoff
  | page =>
    simp only [Traversal.step] at h
    split at h
    · cases h
    · next hended =>
      have running : t.ended = false := Bool.eq_false_iff.mpr hended
      split at h
      · next resp hp =>
        cases h
        exact .page running hp
      · next exc hp =>
        cases h
        exact .failed running hp

/-! ## What every step keeps -/

/-- The keys of the matching rows of `s₀` that the table still has. -/
def survivors (coll : Collation) (source : Option String) (s₀ s : Store) : Set (PageKey coll) :=
  fun k => ∃ e ∈ s₀.rows, sourceMatches source e = true ∧ (∃ r ∈ s.rows, r.id = e.id) ∧ e.key coll = k

/-- What holds of a traversal that started on `s₀`. -/
structure Tracked (env : Env) (coll : Collation) (source : Option String) (s₀ : Store) (t : Traversal)
    (os : List TraversalObs) : Prop where
  held_nodup : (t.held.map (fun c => c.id)).Nodup
  start_held : ∀ e ∈ s₀.rows, e.toIntakeColumns ∈ t.held
  rows_held : ∀ r ∈ t.store.rows, r.toIntakeColumns ∈ t.held
  items_held : ∀ x ∈ returned os, ∃ c ∈ t.held, x.eventId = c.id ∧ x.key coll = c.key coll ∧
    ∀ name, source = some name → name ≠ "" → x.source = name
  answered : ∀ exc, .failed exc ∉ os
  progress : ∃ c : Option (PageKey coll),
    (t.ended = false → cursorParameter env t.cursor = .ok (c.map PageKey.bound)) ∧
    Progress (survivors coll source s₀ t.store) c t.ended ((returned os).map (fun x => x.key coll))

theorem Tracked.start (env : Env) (coll : Collation) (source : Option String) (s₀ : Store) :
    Tracked env coll source s₀ (.start s₀) [] := by
  have hheld : ∀ e ∈ s₀.rows, e.toIntakeColumns ∈ (Traversal.start s₀).held :=
    fun e he => List.mem_map.mpr ⟨e, he, rfl⟩
  refine ⟨?_, hheld, hheld, ?_, ?_, none, fun _ => rfl, Progress.start _⟩
  · rw [Traversal.start, List.map_map]
    exact s₀.ids_nodup
  · intro x hx
    cases hx
  · intro exc hexc
    cases hexc

/-- A transaction that brings back no row of `s₀` keeps everything. -/
theorem Tracked.changed {t : Traversal} {os : List TraversalObs} (h : Tracked env coll source s₀ t os)
    {s : Store} {held : List IntakeColumns} (hsub : t.held ⊆ held)
    (hnodup : (held.map (fun c => c.id)).Nodup) (hrows : ∀ r ∈ s.rows, r.toIntakeColumns ∈ held)
    (hback : ∀ e ∈ s₀.rows, (∃ r ∈ s.rows, r.id = e.id) → ∃ r ∈ t.store.rows, r.id = e.id) :
    Tracked env coll source s₀ { t with store := s, held := held } (os ++ [.changed]) := by
  have hret : returned (os ++ [.changed]) = returned os := by
    rw [returned_snoc]
    exact List.append_nil _
  refine ⟨hnodup, fun e he => hsub (h.start_held e he), hrows, ?_, ?_, ?_⟩
  · intro x hx
    rw [hret] at hx
    obtain ⟨c, hc, hx⟩ := h.items_held x hx
    exact ⟨c, hsub hc, hx⟩
  · intro exc hexc
    rcases List.mem_append.mp hexc with hexc | hexc
    · exact h.answered exc hexc
    · cases List.mem_singleton.mp hexc
  · obtain ⟨c, hc, hprog⟩ := h.progress
    refine ⟨c, hc, ?_⟩
    rw [hret]
    apply hprog.mono
    rintro k ⟨e, he, hm, hin, rfl⟩
    exact ⟨e, he, hm, hback e he hin, rfl⟩

/-- A surviving key is the key of a matching row. -/
theorem Tracked.survivors_sub {t : Traversal} {os : List TraversalObs} (h : Tracked env coll source s₀ t os) :
    survivors coll source s₀ t.store ⊆ ↑(matchingKeys coll source t.store) := by
  rintro k ⟨e, he, hm, ⟨r, hr, hid⟩, rfl⟩
  -- the row still has the intake columns it had in `s₀`
  have hcols : r.toIntakeColumns = e.toIntakeColumns :=
    List.inj_on_of_nodup_map h.held_nodup (h.rows_held r hr) (h.start_held e he) hid
  have hmatch : sourceMatches source r = sourceMatches source e := by
    unfold sourceMatches
    rw [hcols]
  refine Finset.mem_coe.mpr (mem_matchingKeys.mpr ⟨r, hr, hmatch.trans hm, ?_⟩)
  rw [hcols]

theorem sourceMatches_iff {e : Event} :
    sourceMatches source e = true ↔ ∀ name, source = some name → name ≠ "" → e.source = name := by
  cases source with
  | none => exact ⟨fun _ _ hname => absurd hname nofun, fun _ => rfl⟩
  | some s =>
    simp only [sourceMatches, Bool.or_eq_true, decide_eq_true_eq, Option.some.injEq]
    constructor
    · rintro (h | h) name rfl hne
      · exact absurd h hne
      · exact h
    · intro h
      by_cases hs : s = ""
      · exact .inl hs
      · exact .inr (h s rfl hs)

/-- The next page is answered and keeps everything. -/
theorem Tracked.next {t : Traversal} {os : List TraversalObs} (h : Tracked env coll source s₀ t os)
    (hl : 0 < limit) (running : t.ended = false) :
    ∃ resp, listEvents env coll t.store limit t.cursor source = .ok resp ∧
      Tracked env coll source s₀ { t with cursor := resp.nextCursor, ended := resp.nextCursor.isNone }
        (os ++ [.page resp]) := by
  obtain ⟨c, hc, hprog⟩ := h.progress
  rw [running] at hprog
  obtain ⟨resp, hresp, hitems, hpage, hnext⟩ := listEvents_page env t.store source hl (hc running)
  refine ⟨resp, hresp, h.held_nodup, h.start_held, h.rows_held, ?_, ?_, ?_⟩
  · intro x hx
    rw [returned_snoc, TraversalObs.events] at hx
    rcases List.mem_append.mp hx with hx | hx
    · exact h.items_held x hx
    · obtain ⟨e, he, hm, rfl⟩ := hitems x hx
      exact ⟨e.toIntakeColumns, h.rows_held e he, rfl, eventItem_key e, sourceMatches_iff.mp hm⟩
  · intro exc hexc
    rcases List.mem_append.mp hexc with hexc | hexc
    · exact h.answered exc hexc
    · cases List.mem_singleton.mp hexc
  · have hprog' := hprog.page hl h.survivors_sub hpage
    rw [returned_snoc, TraversalObs.events, List.map_append]
    rw [Option.not_isSome] at hprog'
    refine ⟨_, ?_, hprog'⟩
    intro hnone
    have hsome : resp.nextCursor.isSome = true := Option.isNone_eq_false_iff.mp hnone
    rw [hsome]
    exact hnext hsome

theorem tracked_step {t t' : Traversal} {os : List TraversalObs} {a : TraversalAct} {o : TraversalObs}
    (hl : 0 < limit) (h : Tracked env coll source s₀ t os)
    (hs : Traversal.step env coll limit source t a = some (t', o)) :
    Tracked env coll source s₀ t' (os ++ [o]) := by
  cases Traversal.Moved.of_step hs with
  | @insert e s fresh hins =>
    refine h.changed (List.subset_cons_self _ _) ?_ ?_ ?_
    · refine List.nodup_cons.mpr ⟨?_, h.held_nodup⟩
      intro hmem
      obtain ⟨c, hc, hid⟩ := List.mem_map.mp hmem
      exact fresh c hc hid
    · intro r hr
      rcases (Store.mem_insert hins).mp hr with hr | rfl
      · exact List.mem_cons_of_mem _ (h.rows_held r hr)
      · exact List.mem_cons_self
    · -- a new row has a new id, so no deleted event comes back
      rintro e₀ he₀ ⟨r, hr, hid⟩
      rcases (Store.mem_insert hins).mp hr with hr | rfl
      · exact ⟨r, hr, hid⟩
      · exact absurd hid.symm (fresh _ (h.start_held e₀ he₀))
  | relay id v =>
    refine h.changed (List.Subset.refl _) h.held_nodup ?_ ?_
    · intro r hr
      obtain ⟨e, he, rfl⟩ := Store.mem_update.mp hr
      rw [Store.setRelay_intake]
      exact h.rows_held e he
    · rintro e₀ - ⟨r, hr, hid⟩
      obtain ⟨e, he, rfl⟩ := Store.mem_update.mp hr
      rw [Store.setRelay_intake] at hid
      exact ⟨e, he, hid⟩
  | cleanup cutoff =>
    refine h.changed (List.Subset.refl _) h.held_nodup ?_ ?_
    · intro r hr
      exact h.rows_held r (Store.mem_deleteBefore.mp hr).1
    · rintro e₀ - ⟨r, hr, hid⟩
      exact ⟨r, (Store.mem_deleteBefore.mp hr).1, hid⟩
  | @page resp running hp =>
    obtain ⟨resp', hresp, hnext⟩ := h.next hl running
    obtain rfl : resp' = resp := Except.ok.inj (hresp.symm.trans hp)
    exact hnext
  | failed running hp =>
    obtain ⟨resp, hresp, -⟩ := h.next hl running
    cases hresp.symm.trans hp

theorem tracked_run {t : Traversal} {as : List TraversalAct} {os : List TraversalObs} (hl : 0 < limit)
    (h : Run (Traversal.step env coll limit source) (.start s₀) as os t) : Tracked env coll source s₀ t os :=
  h.history (Tracked.start env coll source s₀) (fun _ _ _ _ _ ht hs => tracked_step hl ht hs)

/-! ## Counting the pages -/

theorem survivors_self : survivors coll source s₀ s₀ = ↑(matchingKeys coll source s₀) := by
  funext k
  apply propext
  constructor
  · intro h'
    obtain ⟨e, he, hm, -, hk⟩ := h'
    exact mem_matchingKeys.mpr ⟨e, he, hm, hk⟩
  · intro hk
    obtain ⟨e, he, hm, hk⟩ := mem_matchingKeys.mp hk
    exact ⟨e, he, hm, ⟨e, he, rfl⟩, hk⟩

/-- A traversal whose pages are the only steps. -/
structure Quiet (env : Env) (coll : Collation) (limit : Nat) (source : Option String) (s₀ : Store)
    (t : Traversal) (os : List TraversalObs) : Prop where
  tracked : Tracked env coll source s₀ t os
  store_eq : t.store = s₀
  counted : Counted (matchingKeys coll source s₀) limit t.ended ((returned os).map (fun x => x.key coll))
    os.length

theorem quiet_page {t t' : Traversal} {os : List TraversalObs} {o : TraversalObs} (hl : 0 < limit)
    (h : Quiet env coll limit source s₀ t os)
    (hs : Traversal.step env coll limit source t .page = some (t', o)) :
    Quiet env coll limit source s₀ t' (os ++ [o]) := by
  have htracked := tracked_step hl h.tracked hs
  have hcounted := h.counted
  obtain ⟨c, hc, hprog⟩ := h.tracked.progress
  rw [h.store_eq, survivors_self] at hprog
  cases Traversal.Moved.of_step hs with
  | @page resp running hp =>
    rw [running] at hprog hcounted
    obtain ⟨resp', hresp, -, hpage, -⟩ := listEvents_page env t.store source hl (hc running)
    obtain rfl : resp' = resp := Except.ok.inj (hresp.symm.trans hp)
    rw [h.store_eq] at hpage
    refine ⟨htracked, h.store_eq, ?_⟩
    have hnext := hcounted.page hprog hpage
    rw [Option.not_isSome] at hnext
    rw [returned_snoc, TraversalObs.events, List.map_append, List.length_append, List.length_singleton]
    exact hnext
  | @failed exc running hp =>
    exact absurd (List.mem_append_right _ (List.mem_singleton_self _)) (htracked.answered exc)

theorem quiet_run {t : Traversal} {as : List TraversalAct} {os : List TraversalObs} (hl : 0 < limit)
    (h : Run (Traversal.step env coll limit source) (.start s₀) as os t) (hpages : ∀ a ∈ as, a = .page) :
    Quiet env coll limit source s₀ t os := by
  refine h.history_of hpages ?_ ?_
  · exact ⟨Tracked.start env coll source s₀, rfl, Counted.start _ _⟩
  · rintro u os u' a o hq rfl hs
    exact quiet_page hl hq hs

/-! ## The traversal -/

/-- An id stands at one place of the returned pages only. -/
theorem Tracked.ids_nodup {t : Traversal} {os : List TraversalObs} (h : Tracked env coll source s₀ t os) :
    ((returned os).map (fun x => x.eventId)).Nodup := by
  obtain ⟨_, -, hprog⟩ := h.progress
  have hsorted := List.pairwise_map.mp hprog.sorted
  refine List.pairwise_map.mpr (hsorted.imp_of_mem ?_)
  intro x y hx hy hlt hid
  obtain ⟨c, hc, hxid, hxkey, -⟩ := h.items_held x hx
  obtain ⟨d, hd, hyid, hykey, -⟩ := h.items_held y hy
  obtain rfl : c = d :=
    List.inj_on_of_nodup_map h.held_nodup hc hd (hxid.symm.trans (hid.trans hyid))
  rw [hxkey, hykey] at hlt
  exact lt_irrefl _ hlt

/-- In every traversal, from any table and whatever is inserted, updated and
deleted between its pages: every call is answered; the concatenated pages are
strictly descending in (received_at, id), repeat no id and match the filter; once
a page has no `next_cursor`, every matching event that was in the table before
the first page and is in it still has been returned exactly once. With no other
step between the pages there are max 1 ⌈n / limit⌉ of them, `n` the number of
matching events. -/
theorem traversal_exact (env : Env) (coll : Collation) (s₀ : Store) (source : Option String) {limit : Nat}
    (hl : 1 ≤ limit) {as : List TraversalAct} {os : List TraversalObs} {t : Traversal}
    (h : Run (Traversal.step env coll limit source) (.start s₀) as os t) :
    (∀ exc, .failed exc ∉ os) ∧
    (t.ended = false → ∃ t' resp, Traversal.step env coll limit source t .page = some (t', .page resp)) ∧
    (returned os).Pairwise (fun x y => y.receivedAt.utc < x.receivedAt.utc ∨
      (y.receivedAt.utc = x.receivedAt.utc ∧ coll.lt y.eventId x.eventId = true)) ∧
    ((returned os).map (fun x => x.eventId)).Nodup ∧
    (∀ x ∈ returned os, ∀ name, source = some name → name ≠ "" → x.source = name) ∧
    (t.ended = true → ∀ e ∈ s₀.rows, sourceMatches source e = true → (∃ r ∈ t.store.rows, r.id = e.id) →
      ((returned os).map (fun x => x.eventId)).count e.id = 1) ∧
    ((∀ a ∈ as, a = .page) →
      as.length ≤ max 1 (((matching source s₀).length + limit - 1) / limit) ∧
      (t.ended = true ↔ as.length = max 1 (((matching source s₀).length + limit - 1) / limit))) := by
  have htracked := tracked_run hl h
  refine ⟨htracked.answered, ?_, ?_, htracked.ids_nodup, ?_, ?_, ?_⟩
  · intro running
    obtain ⟨resp, hresp, -⟩ := htracked.next hl running
    refine ⟨{ t with cursor := resp.nextCursor, ended := resp.nextCursor.isNone }, resp, ?_⟩
    simp only [Traversal.step, running, Bool.false_eq_true, if_false, hresp]
  · obtain ⟨_, -, hprog⟩ := htracked.progress
    exact List.pairwise_map.mp hprog.sorted
  · intro x hx
    obtain ⟨-, -, -, -, hsource⟩ := htracked.items_held x hx
    exact hsource
  · intro hended e he hm hin
    apply List.count_eq_one_of_mem htracked.ids_nodup
    obtain ⟨_, -, hprog⟩ := htracked.progress
    rcases hprog.passed (e.key coll) ⟨e, he, hm, hin, rfl⟩ with hseen | ⟨hrunning, -⟩
    · obtain ⟨x, hx, hkey⟩ := List.mem_map.mp hseen
      exact List.mem_map.mpr ⟨x, hx, congrArg PageKey.id hkey⟩
    · rw [hended] at hrunning
      cases hrunning
  · intro hpages
    have hquiet := quiet_run hl h hpages
    obtain ⟨_, -, hprog⟩ := htracked.progress
    rw [hquiet.store_eq, survivors_self] at hprog
    rw [← matchingKeys_card coll source s₀, ← h.length_eq]
    exact hquiet.counted.pages hprog hl

end

/-! ## A traversal of tied rows -/

def sampleRow (d now : Nat) : Event :=
  { intakeColumns (sampleRequest none "\x7b\x7d") (.obj []) (sampleDraws d now) with toRelayColumns := noRelay }

/-- Three rows, two of them received at one moment. -/
def tiedRows : Store where
  rows := [sampleRow 1 10, sampleRow 2 10, sampleRow 3 20]
  ids_nodup := by decide
  keys_unique := by decide

/-- Pages of two; between them a row comes in and a cleanup runs. -/
def tiedActs : List TraversalAct :=
  [.page, .insert (sampleRow 4 15), .cleanup ⟨5, by decide⟩, .page]

/-- The page edge falls between the tied rows, and the last of them is returned
once. -/
theorem traversal_exact_ties :
    ∃ t os, exec (Traversal.step sampleEnv codePointOrder 2 none) (.start tiedRows) tiedActs = some (t, os) ∧
      t.ended = true ∧ ((returned os).map (fun x => x.eventId)).count (sampleRow 1 10).id = 1 := by
  have hrun : (exec (Traversal.step sampleEnv codePointOrder 2 none) (.start tiedRows) tiedActs).map
      (fun r => (r.1.ended, r.1.store.rows.map (fun e => e.id))) =
      some (true, [(sampleRow 1 10).id, (sampleRow 2 10).id, (sampleRow 3 20).id, (sampleRow 4 15).id]) := by
    decide +kernel
  obtain ⟨⟨t, os⟩, h, hfacts⟩ := Option.map_eq_some_iff.mp hrun
  simp only [Prod.mk.injEq] at hfacts
  obtain ⟨hended, hids⟩ := hfacts
  obtain ⟨r, hr, hid⟩ := List.mem_map.mp (hids ▸ List.mem_cons_self)
  obtain ⟨-, -, -, -, -, honce, -⟩ :=
    traversal_exact sampleEnv codePointOrder tiedRows none (by decide) (Run.of_exec h)
  exact ⟨t, os, h, hended, honce hended (sampleRow 1 10) List.mem_cons_self rfl ⟨r, hr, hid⟩⟩

end WebhookRelay
