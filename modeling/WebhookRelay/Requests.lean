import WebhookRelay.System

/-
  What a request leaves in the history. The observations of one request, taken
  from any run, form one of a dozen short lists, determined by where its
  handler stands (`Shape`); so a request inserts at most once, counts and
  enqueues only after it inserted, and a replay does neither.

  `World.Fresh` ties the event ids to the uuids drawn: two built events never
  share an id.
-/
namespace WebhookRelay

open Py Transition

/-- The request an observation belongs to. -/
def Obs.request : Obs → Option Nat
  | .rejected r _ | .built r _ | .inserted r _ | .conflict r | .replayed r _ | .lost r
  | .counted r _ | .enqueued r _ _ _ | .refused r | .uninitialised r _ | .marked r _ => some r
  | .started _ | .stopped _ | .closed _ | .began _ _ | .job _ _ _ _ | .idled _ _ | .deleted _ => none

/-- The observations of one request. -/
def trail (r : Nat) (os : List Obs) : List Obs := os.filter (fun o => o.request = some r)

theorem mem_trail {r : Nat} {os : List Obs} {o : Obs} :
    o ∈ trail r os ↔ o ∈ os ∧ o.request = some r := by
  rw [trail, List.mem_filter, decide_eq_true_eq]

theorem trail_snoc_self {r : Nat} {os : List Obs} {o : Obs} (h : o.request = some r) :
    trail r (os ++ [o]) = trail r os ++ [o] := by
  simp [trail, h]

theorem trail_snoc_other {r : Nat} {os : List Obs} {o : Obs} (h : o.request ≠ some r) :
    trail r (os ++ [o]) = trail r os := by
  simp [trail, h]

/-- The key under which an intake can be replayed. -/
def Intake.key (i : Intake) : String := i.event.idempotencyKey.getD ""

theorem Intake.key_some {i : Intake} (h : i.key ≠ "") :
    i.event.idempotencyKey = some (i.event.idempotencyKey.getD "") := by
  cases hi : i.event.idempotencyKey with
  | none => exact absurd (by rw [Intake.key, hi]; rfl) h
  | some k => rfl

/-- Where a handler stands, and the observations it has made. -/
inductive Shape (env : Env) (r : Nat) : Handler → List Obs → Prop where
  | absent : Shape env r .absent []
  | rejected {exc : PyExc} : Shape env r (.rejected exc) [.rejected r exc]
  | inserting {i : Intake} : Shape env r (.active i .inserting) [.built r i]
  | recovering {i : Intake} (hk : i.key ≠ "") :
      Shape env r (.active i .recovering) [.built r i, .conflict r]
  | counting {i : Intake} :
      Shape env r (.active i .counting) [.built r i, .inserted r (i.row env)]
  | enqueuing {i : Intake} (ht : (env.settings i.pid).targetUrl ≠ "") (hq : i.queuePreFull = false) :
      Shape env r (.active i .enqueuing)
        [.built r i, .inserted r (i.row env), .counted r i.event.source]
  | marking {i : Intake} (ht : (env.settings i.pid).targetUrl ≠ "") (hq : i.queuePreFull = false) :
      Shape env r (.active i .marking)
        [.built r i, .inserted r (i.row env), .counted r i.event.source, .refused r]
  | replayed {i : Intake} {row : Event} (hs : row.source = i.event.source)
      (hk : row.idempotencyKey = i.event.idempotencyKey) (hne : i.key ≠ "") :
      Shape env r (.answered i (createResponse row)) [.built r i, .conflict r, .replayed r row]
  | counted {i : Intake} (ht : ¬ ((env.settings i.pid).targetUrl ≠ "" ∧ i.queuePreFull = false)) :
      Shape env r (.answered i (createResponse i.event))
        [.built r i, .inserted r (i.row env), .counted r i.event.source]
  | enqueued {i : Intake} {q : Nat} (ht : (env.settings i.pid).targetUrl ≠ "")
      (hq : i.queuePreFull = false) :
      Shape env r (.answered i (createResponse i.event))
        [.built r i, .inserted r (i.row env), .counted r i.event.source,
          .enqueued r i.pid q (relayJob (env.settings i.pid) i.event)]
  | marked {i : Intake} (ht : (env.settings i.pid).targetUrl ≠ "") (hq : i.queuePreFull = false) :
      Shape env r (.answered i (createResponse (applyRelayResult i.event queueFullRelayResult)))
        [.built r i, .inserted r (i.row env), .counted r i.event.source, .refused r,
          .marked r i.event.id]
  | lostInsert {i : Intake} {exc : PyExc} (hexc : exc = if i.writable env then .integrityError else .statementError)
      (hk : i.writable env = true → i.key = "") : Shape env r (.failed i exc) [.built r i, .lost r]
  | lostLookup {i : Intake} (hk : i.key ≠ "") :
      Shape env r (.failed i .integrityError) [.built r i, .conflict r, .lost r]
  | uninitialised {i : Intake} {exc : PyExc} (ht : (env.settings i.pid).targetUrl ≠ "")
      (hq : i.queuePreFull = false) :
      Shape env r (.failed i exc)
        [.built r i, .inserted r (i.row env), .counted r i.event.source, .uninitialised r i.event.id]

section

variable {env : Env} {w w' : World} {a : Act} {o : Obs} {as : List Act} {os : List Obs}

/-- A step leaves all handlers alone and belongs to no request, or it moves one
handler from shape to shape. -/
theorem Move.shape (hm : Move env w a w' o) :
    (o.request = none ∧ w'.handlers = w.handlers) ∨
      ∃ r h, o.request = some r ∧ w'.handlers = Function.update w.handlers r h ∧
        ∀ tr, Shape env r (w.handlers r) tr → Shape env r h (tr ++ [o]) := by
  cases hm with
  | started | stopped | closed | began | beganLate | taken | recorded | finished | dropped | idled
  | deleted => exact .inl ⟨rfl, rfl⟩
  | worked => exact .inl ⟨rfl, rfl⟩
  | rejected ha =>
    refine .inr ⟨_, _, rfl, rfl, fun tr h => ?_⟩
    rw [ha] at h
    cases h
    exact .rejected
  | built ha _ _ =>
    refine .inr ⟨_, _, rfl, rfl, fun tr h => ?_⟩
    rw [ha] at h
    cases h
    exact .inserting
  | inserted hh _ =>
    refine .inr ⟨_, _, rfl, rfl, fun tr h => ?_⟩
    rw [hh] at h
    cases h
    exact .counting
  | conflict hh _ hkey =>
    refine .inr ⟨_, _, rfl, rfl, fun tr h => ?_⟩
    rw [hh] at h
    cases h
    exact .recovering hkey
  | lostInsert hh hexc hlost =>
    refine .inr ⟨_, _, rfl, rfl, fun tr h => ?_⟩
    rw [hh] at h
    cases h
    exact .lostInsert hexc (fun hw => (hlost hw).2)
  | @replayed r i row hh hl =>
    refine .inr ⟨_, _, rfl, rfl, fun tr h => ?_⟩
    rw [hh] at h
    cases h with
    | recovering hk =>
      obtain ⟨-, hsource, hrow⟩ := Store.lookup_eq_some.mp hl
      exact .replayed hsource (hrow.trans (Intake.key_some hk).symm) hk
  | lostLookup hh _ =>
    refine .inr ⟨_, _, rfl, rfl, fun tr h => ?_⟩
    rw [hh] at h
    cases h with
    | recovering hk => exact .lostLookup hk
  | countedRelay hh ht hq =>
    refine .inr ⟨_, _, rfl, rfl, fun tr h => ?_⟩
    rw [hh] at h
    cases h
    exact .enqueuing ht hq
  | countedOnly hh ht =>
    refine .inr ⟨_, _, rfl, rfl, fun tr h => ?_⟩
    rw [hh] at h
    cases h
    exact .counted ht
  | enqueued hh _ _ =>
    refine .inr ⟨_, _, rfl, rfl, fun tr h => ?_⟩
    rw [hh] at h
    cases h with
    | enqueuing ht hq => exact .enqueued ht hq
  | refused hh =>
    refine .inr ⟨_, _, rfl, rfl, fun tr h => ?_⟩
    rw [hh] at h
    cases h with
    | enqueuing ht hq => exact .marking ht hq
  | uninitialised hh _ =>
    refine .inr ⟨_, _, rfl, rfl, fun tr h => ?_⟩
    rw [hh] at h
    cases h with
    | enqueuing ht hq => exact .uninitialised ht hq
  | marked hh =>
    refine .inr ⟨_, _, rfl, rfl, fun tr h => ?_⟩
    rw [hh] at h
    cases h with
    | marking ht hq => exact .marked ht hq

/-- In every run, each request's observations have the shape of its handler. -/
theorem shape_run (h : Run (step env) World.initial as os w) (r : Nat) :
    Shape env r (w.handlers r) (trail r os) := by
  induction h with
  | nil => exact .absent
  | @snoc t t' as os a o _ hs ih =>
    rcases (Move.of_step hs).shape with ⟨hnone, hh⟩ | ⟨r', h', hr', hh, hshape⟩
    · rw [hh, trail_snoc_other (by rw [hnone]; exact nofun)]
      exact ih
    · by_cases hrr : r = r'
      · subst hrr
        rw [hh, Function.update_self, trail_snoc_self hr']
        exact hshape _ ih
      · rw [hh, Function.update_of_ne hrr, trail_snoc_other (by rw [hr']; simpa using Ne.symm hrr)]
        exact ih

/-- A handler at work has built its event, and has inserted it once it is past
the INSERT. -/
theorem Shape.active {r : Nat} {i : Intake} {ph : Phase} {tr : List Obs}
    (hs : Shape env r (.active i ph) tr) :
    .built r i ∈ tr ∧ (ph ≠ .inserting → ph ≠ .recovering → .inserted r (i.row env) ∈ tr) := by
  cases hs with
  | inserting => exact ⟨List.mem_cons_self, fun h _ => absurd rfl h⟩
  | recovering _ => exact ⟨List.mem_cons_self, fun _ h => absurd rfl h⟩
  | counting | enqueuing _ _ | marking _ _ =>
    exact ⟨List.mem_cons_self, fun _ _ => List.mem_cons_of_mem _ List.mem_cons_self⟩

theorem built_of_active (h : Run (step env) World.initial as os w) {r : Nat} {i : Intake} {ph : Phase}
    (hh : w.handlers r = .active i ph) : .built r i ∈ os :=
  (mem_trail.mp (hh ▸ shape_run h r).active.1).1

theorem inserted_of_active (h : Run (step env) World.initial as os w) {r : Nat} {i : Intake} {ph : Phase}
    (hh : w.handlers r = .active i ph) (h₁ : ph ≠ .inserting) (h₂ : ph ≠ .recovering) :
    .inserted r (i.row env) ∈ os :=
  (mem_trail.mp ((hh ▸ shape_run h r).active.2 h₁ h₂)).1

theorem Shape.built {r : Nat} {h : Handler} {tr : List Obs} (hs : Shape env r h tr) (ho : o ∈ tr) :
    (∃ exc, o = .rejected r exc) ∨ ∃ i, .built r i ∈ tr := by
  cases hs with
  | absent => cases ho
  | @rejected exc => exact .inl ⟨exc, List.mem_singleton.mp ho⟩
  | @inserting i | @recovering i | @counting i | @enqueuing i | @marking i | @replayed i | @counted i
  | @enqueued i | @marked i | @lostInsert i | @lostLookup i | @uninitialised i =>
    exact .inr ⟨i, List.mem_cons_self⟩

theorem Shape.built_unique {r : Nat} {h : Handler} {tr : List Obs} {i j : Intake}
    (hs : Shape env r h tr) (hi : .built r i ∈ tr) (hj : .built r j ∈ tr) : i = j := by
  cases hs <;> simp_all

/-- A request inserts the row it built, at most once. -/
theorem Shape.inserted {r : Nat} {h : Handler} {tr : List Obs} {row : Event} (hs : Shape env r h tr)
    (ho : .inserted r row ∈ tr) : ∃ i, .built r i ∈ tr ∧ row = i.row env := by
  cases hs <;> simp_all

/-! ## Event ids -/

/-- The intake comes from a request that passed all checks. -/
def Intake.FromRequest (env : Env) (i : Intake) : Prop :=
  ∃ p capacity req draws, buildEvent env p capacity req draws = .ok i

theorem Intake.FromRequest.receivedAt {i : Intake} (h : i.FromRequest env) :
    ∃ now, i.event.receivedAt = .ofUtc now := by
  obtain ⟨p, capacity, req, draws, hb⟩ := h
  obtain ⟨payload, -, -, hcols, -⟩ := buildEvent_ok hb
  exact ⟨draws.now, congrArg IntakeColumns.receivedAt hcols⟩

/-- The built events of a history and the uuids drawn. -/
structure World.Fresh (env : Env) (w : World) (os : List Obs) : Prop where
  issued : ∀ r i, .built r i ∈ os → ∃ u ∈ w.issued, u.text = i.event.id
  distinct : ∀ r i r' i', .built r i ∈ os → .built r' i' ∈ os → i.event.id = i'.event.id → r = r'
  fromRequest : ∀ r i, .built r i ∈ os → i.FromRequest env

/-- A step that builds no event keeps what was known of the ids. -/
theorem World.Fresh.other (hf : World.Fresh env w os) (ho : ∀ r i, o ≠ .built r i)
    (hissued : ∀ u ∈ w.issued, u ∈ w'.issued) : World.Fresh env w' (os ++ [o]) := by
  have hmem : ∀ r i, .built r i ∈ os ++ [o] → .built r i ∈ os := by
    intro r i h
    rcases List.mem_append.mp h with h | h
    · exact h
    · exact absurd (List.mem_singleton.mp h).symm (ho r i)
  refine ⟨?_, ?_, ?_⟩
  · intro r i h
    obtain ⟨u, hu, hid⟩ := hf.issued r i (hmem r i h)
    exact ⟨u, hissued u hu, hid⟩
  · intro r i r' i' h h'
    exact hf.distinct r i r' i' (hmem r i h) (hmem r' i' h')
  · intro r i h
    exact hf.fromRequest r i (hmem r i h)

/-- No built event has the id a uuid that was not drawn would give. -/
theorem World.Fresh.id_ne {r : Nat} {i : Intake} {u : Uuid} (hf : World.Fresh env w os)
    (hu : u ∉ w.issued) (h : .built r i ∈ os) : i.event.id ≠ u.text := by
  intro hid
  obtain ⟨u', hu', hid'⟩ := hf.issued r i h
  have huu : u' = u := by
    cases u'
    cases u
    cases hid'.trans hid
    rfl
  exact hu (huu ▸ hu')

/-- An event built with a fresh uuid differs from those built before. -/
theorem World.Fresh.built_ne {p r : Nat} {req : Request} {draws : Draws} {capacity : Except PyExc Bool}
    {i j : Intake} (hf : World.Fresh env w os) (hfresh : draws.eventUuid ∉ w.issued)
    (hb : buildEvent env p capacity req draws = .ok i) (hj : .built r j ∈ os) :
    j.event.id ≠ i.event.id := by
  obtain ⟨payload, -, -, hcols, -⟩ := buildEvent_ok hb
  have hid : i.event.id = draws.eventUuid.text := congrArg IntakeColumns.id hcols
  rw [hid]
  exact hf.id_ne hfresh hj

/-- A new event has an id that no event before it has. -/
theorem World.Fresh.build {r : Nat} {i : Intake} {u v : Uuid} (hf : World.Fresh env w os)
    (hu : u ∉ w.issued) (hid : u.text = i.event.id) (hreq : i.FromRequest env)
    (hw : w'.issued = v :: u :: w.issued) : World.Fresh env w' (os ++ [.built r i]) := by
  have hnew : ∀ r' i', .built r' i' ∈ os → i'.event.id ≠ i.event.id :=
    fun r' i' h => hid ▸ hf.id_ne hu h
  refine ⟨?_, ?_, ?_⟩
  · intro r' i' h
    rw [hw]
    rcases List.mem_append.mp h with h | h
    · obtain ⟨u', hu', hid'⟩ := hf.issued r' i' h
      exact ⟨u', List.mem_cons_of_mem _ (List.mem_cons_of_mem _ hu'), hid'⟩
    · cases List.mem_singleton.mp h
      exact ⟨u, List.mem_cons_of_mem _ List.mem_cons_self, hid⟩
  · intro r₁ i₁ r₂ i₂ h₁ h₂ heq
    rcases List.mem_append.mp h₁ with h₁ | h₁ <;> rcases List.mem_append.mp h₂ with h₂ | h₂
    · exact hf.distinct r₁ i₁ r₂ i₂ h₁ h₂ heq
    · cases List.mem_singleton.mp h₂
      exact absurd heq (hnew r₁ i₁ h₁)
    · cases List.mem_singleton.mp h₁
      exact absurd heq.symm (hnew r₂ i₂ h₂)
    · cases List.mem_singleton.mp h₁
      cases List.mem_singleton.mp h₂
      rfl
  · intro r' i' h
    rcases List.mem_append.mp h with h | h
    · exact hf.fromRequest r' i' h
    · cases List.mem_singleton.mp h
      exact hreq

theorem fresh_step (hf : World.Fresh env w os) (hm : Move env w a w' o) :
    World.Fresh env w' (os ++ [o]) := by
  cases hm with
  | @built p r req draws i ha hfresh hb =>
    obtain ⟨payload, -, -, hcols, -⟩ := buildEvent_ok hb
    exact hf.build hfresh (congrArg IntakeColumns.id hcols).symm ⟨p, _, req, draws, hb⟩ rfl
  | rejected _ =>
    apply hf.other (by intro r i h; cases h)
    intro u hu
    exact List.mem_cons_of_mem _ (List.mem_cons_of_mem _ hu)
  | started | stopped | closed | inserted | conflict | lostInsert | replayed | lostLookup | countedRelay
  | countedOnly | enqueued | refused | uninitialised | marked | began | beganLate | taken | worked
  | recorded | finished | dropped | idled | deleted =>
    exact hf.other (by intro r i h; cases h) (fun u hu => hu)

theorem fresh_run (h : Run (step env) World.initial as os w) : World.Fresh env w os := by
  refine h.history ⟨?_, ?_, ?_⟩ (fun _ _ _ _ _ hf hs => fresh_step hf (Move.of_step hs))
  · intro r i hi
    cases hi
  · intro r i r' i' hi
    cases hi
  · intro r i hi
    cases hi

/-- In a run, an event id names one request and one built event. -/
theorem built_unique (h : Run (step env) World.initial as os w) {r r' : Nat} {i i' : Intake}
    (hi : .built r i ∈ os) (hi' : .built r' i' ∈ os) (hid : i.event.id = i'.event.id) :
    r = r' ∧ i = i' := by
  obtain rfl := (fresh_run h).distinct r i r' i' hi hi' hid
  exact ⟨rfl, (shape_run h r).built_unique (mem_trail.mpr ⟨hi, rfl⟩) (mem_trail.mpr ⟨hi', rfl⟩)⟩

/-- Whoever inserted a row built it. -/
theorem built_of_inserted (h : Run (step env) World.initial as os w) {r : Nat} {row : Event}
    (hi : .inserted r row ∈ os) : ∃ i, .built r i ∈ os ∧ row = i.row env := by
  obtain ⟨i, hb, hrow⟩ := (shape_run h r).inserted (mem_trail.mpr ⟨hi, rfl⟩)
  exact ⟨i, (mem_trail.mp hb).1, hrow⟩

end

end WebhookRelay
