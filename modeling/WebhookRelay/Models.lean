import Mathlib.Data.List.Nodup
import Mathlib.Data.List.Pairwise
import WebhookRelay.Datetime
import WebhookRelay.Json

/-
  The data of the service: `Settings` (core/config.py), the `Event` row and the
  events table (db/models.py), and the exceptions its code raises or catches.

  A `Store` is a committed state of the events table. It carries the proofs of
  the primary key and of the unique constraint on (source, idempotency_key), in
  which NULL keys never collide, so `Store.insert` is the only place where a
  constraint can fail. Each transaction on the table is one function: insert,
  lookup, relay update, cleanup.
-/
namespace WebhookRelay

open Py

/-! ## Exceptions and settings -/

/-- The exceptions the handlers and jobs meet. -/
inductive PyExc where
  | httpException (status : Nat) (detail : String)
  | integrityError
  | statementError
  | runtimeError (text : String)
  | typeError (text : String)
  | valueError (text : String)
  | unicodeError (text : String)
  | unicodeDecodeError
  | unicodeEncodeError
  | recursionError
  | other (type text : String)
  deriving DecidableEq, Repr

/-- A sequence that did not raise. -/
theorem except_bind_ok {ε α β : Type} {x : Except ε α} {f : α → Except ε β} {b : β} (h : (x >>= f) = .ok b) :
    ∃ a, x = .ok a ∧ f a = .ok b := by
  cases x with
  | error e => cases h
  | ok a => exact ⟨a, rfl, h⟩

/-- The settings the modelled code reads. The two frozen sets are lists of
their items. -/
structure Settings where
  targetUrl : String
  webhookSecret : Str
  maxBodyBytes : Int
  allowedSources : List String
  relayAllowHosts : List String
  relayAllowPrivateIps : Bool
  relayWorkerConcurrency : Int
  relayQueueSize : Int
  eventRetentionDays : Option Int
  adminToken : Str

/-- The flags of an `ipaddress` object that the screening looks at. -/
structure IpFlags where
  isPrivate : Bool := false
  isLoopback : Bool := false
  isLinkLocal : Bool := false
  isReserved : Bool := false
  isMulticast : Bool := false
  isUnspecified : Bool := false

/-- A lowercase hexadecimal digit. -/
def isHexLower (c : Char) : Bool := ('0' ≤ c && c ≤ '9') || ('a' ≤ c && c ≤ 'f')

/-- A value of `hexdigest()` of SHA-256. -/
structure HexDigest where
  text : String
  length_eq : text.length = 64
  hexLower : ∀ c ∈ text.toList, isHexLower c = true

/-- What the code runs on: the settings of each process, the database's
treatment of time zones, and the functions of the platform it calls.
`urlparse` gives scheme and hostname; `ipAddress` is `ipaddress.ip_address`,
with `none` for its ValueError; `hmacSha256` gives the hex digest under the text
of a key; `strOf` is `str()` of a JSON value that is not a string. `dumpsRoom` is
the nesting `json.dumps` has room for where a row is flushed or a response is
rendered, `serializeRoom` the levels that pydantic's serializer admits below a
payload, far fewer. -/
structure Env where
  settings : Nat → Settings
  dropsTz : Bool
  hmacSha256 : String → List UInt8 → HexDigest
  urlparse : String → Except PyExc (String × Option String)
  lower : String → String
  ipAddress : String → Option IpFlags
  json : Interp
  strOf : Json → Str
  dumpsRoom : Nat
  serializeRoom : Nat
  serializeRoom_le : serializeRoom + 4 ≤ dumpsRoom

/-! ## Event rows -/

/-- A value of `str(uuid4())`. -/
structure Uuid where
  text : String
  length_eq : text.length = 36
  deriving DecidableEq

/-- The columns a request fills. -/
structure IntakeColumns where
  id : String
  source : String
  receivedAt : Datetime
  payload : Json
  headers : List (String × String)
  requestId : String
  idempotencyKey : Option String

/-- The columns the relay fills, with their defaults. -/
structure RelayColumns where
  relayStatus : Option String := none
  relayAttempted : Nat := 0
  relaySuccess : Nat := 0
  relayAttempts : Nat := 0
  relayReason : Option String := none
  relayLastError : Option String := none
  relayLastStatusCode : Option Int := none
  relayLastAttemptAt : Option Datetime := none
  deriving DecidableEq

structure Event extends IntakeColumns, RelayColumns

/-- A datetime as the database gives it back: a column without time zone keeps
the clock reading only. -/
def storedDatetime (dropsTz : Bool) (d : Datetime) : Datetime :=
  if dropsTz then .naive d.wall else d

def RelayColumns.stored (dropsTz : Bool) (v : RelayColumns) : RelayColumns :=
  { v with relayLastAttemptAt := v.relayLastAttemptAt.map (storedDatetime dropsTz) }

/-- The row an INSERT of the event writes. -/
def Event.stored (dropsTz : Bool) (e : Event) : Event :=
  { e with
    receivedAt := storedDatetime dropsTz e.receivedAt
    toRelayColumns := e.toRelayColumns.stored dropsTz }

/-- `_as_utc`. -/
def asUtc (d : Datetime) : Datetime := .ofUtc d.utc

@[simp] theorem storedDatetime_utc (dropsTz : Bool) (m : Moment) :
    (storedDatetime dropsTz (.ofUtc m)).utc = m := by
  cases dropsTz
  · exact Datetime.utc_ofUtc m
  · exact Datetime.utc_naive m

/-- Two rows violate the unique constraint on (source, idempotency_key). -/
def Event.sameKey (a b : Event) : Prop :=
  a.idempotencyKey ≠ none ∧ a.source = b.source ∧ a.idempotencyKey = b.idempotencyKey

instance (a b : Event) : Decidable (a.sameKey b) := inferInstanceAs (Decidable (_ ∧ _))

theorem Event.sameKey_comm {a b : Event} (h : a.sameKey b) : b.sameKey a :=
  ⟨h.2.2 ▸ h.1, h.2.1.symm, h.2.2.symm⟩

/-! ## The events table -/

/-- A committed state of the table. -/
structure Store where
  rows : List Event
  ids_nodup : (rows.map (fun e => e.id)).Nodup
  keys_unique : rows.Pairwise (fun a b => ¬ a.sameKey b)

namespace Store

theorem ext_rows {s t : Store} (h : s.rows = t.rows) : s = t := by
  cases s; cases t; cases h; rfl

def empty : Store := ⟨[], List.nodup_nil, .nil⟩

/-- `db.get(Event, id)`. -/
def get (s : Store) (id : String) : Option Event := s.rows.find? (fun e => e.id = id)

/-- The lookup by source and idempotency key. -/
def lookup (s : Store) (source key : String) : Option Event :=
  s.rows.find? (fun e => e.source = source ∧ e.idempotencyKey = some key)

/-- Whether inserting the row violates the primary key or the unique
constraint. -/
def Conflicts (s : Store) (e : Event) : Prop := ∃ r ∈ s.rows, r.id = e.id ∨ r.sameKey e

instance (s : Store) (e : Event) : Decidable (s.Conflicts e) :=
  inferInstanceAs (Decidable (∃ r ∈ s.rows, r.id = e.id ∨ r.sameKey e))

theorem ids_nodup_snoc {s : Store} {e : Event} (h : ¬ s.Conflicts e) :
    ((s.rows ++ [e]).map (fun e => e.id)).Nodup := by
  rw [List.map_append, List.nodup_append]
  refine ⟨s.ids_nodup, List.nodup_singleton _, ?_⟩
  intro a ha b hb hab
  obtain ⟨r, hr, rfl⟩ := List.mem_map.mp ha
  rw [List.map_singleton, List.mem_singleton] at hb
  exact h ⟨r, hr, .inl (hab.trans hb)⟩

theorem keys_unique_snoc {s : Store} {e : Event} (h : ¬ s.Conflicts e) :
    (s.rows ++ [e]).Pairwise (fun a b => ¬ a.sameKey b) := by
  rw [List.pairwise_append]
  refine ⟨s.keys_unique, List.pairwise_singleton _ _, ?_⟩
  intro a ha b hb hab
  rw [List.mem_singleton] at hb
  exact h ⟨a, ha, .inr (hb ▸ hab)⟩

/-- The INSERT transaction; `none` is IntegrityError. -/
def insert (s : Store) (e : Event) : Option Store :=
  if h : s.Conflicts e then none
  else some ⟨s.rows ++ [e], ids_nodup_snoc h, keys_unique_snoc h⟩

/-- A relay update of one row. -/
def setRelay (id : String) (v : RelayColumns) (e : Event) : Event :=
  if e.id = id then { e with toRelayColumns := v } else e

@[simp] theorem setRelay_intake (id : String) (v : RelayColumns) (e : Event) :
    (setRelay id v e).toIntakeColumns = e.toIntakeColumns := by
  unfold setRelay
  split <;> rfl

theorem sameKey_setRelay (id : String) (v : RelayColumns) (a b : Event) :
    (setRelay id v a).sameKey (setRelay id v b) ↔ a.sameKey b := by
  simp only [Event.sameKey, setRelay_intake]

/-- `UPDATE events SET ... WHERE id = ...`. -/
def update (s : Store) (id : String) (v : RelayColumns) : Store where
  rows := s.rows.map (setRelay id v)
  ids_nodup := by
    have h : (s.rows.map (setRelay id v)).map (fun e => e.id) = s.rows.map (fun e => e.id) := by
      rw [List.map_map]
      exact List.map_congr_left (fun e _ => congrArg IntakeColumns.id (setRelay_intake id v e))
    exact h ▸ s.ids_nodup
  keys_unique := by
    rw [List.pairwise_map]
    exact s.keys_unique.imp (fun h hab => h ((sameKey_setRelay id v _ _).mp hab))

/-- `DELETE FROM events WHERE received_at < cutoff`. -/
def deleteBefore (s : Store) (cutoff : Moment) : Store where
  rows := s.rows.filter (fun e => ¬ e.receivedAt.utc < cutoff)
  ids_nodup := (List.filter_sublist.map _).nodup s.ids_nodup
  keys_unique := s.keys_unique.sublist List.filter_sublist

/-- The rows a cleanup deletes. -/
def expired (s : Store) (cutoff : Moment) : List Event :=
  s.rows.filter (fun e => e.receivedAt.utc < cutoff)

/-! ### What the transactions do to the rows -/

theorem insert_eq_none {s : Store} {e : Event} : s.insert e = none ↔ s.Conflicts e := by
  unfold insert
  split
  · next h => exact ⟨fun _ => h, fun _ => rfl⟩
  · next h => exact ⟨nofun, fun hc => absurd hc h⟩

theorem insert_rows {s s' : Store} {e : Event} (h : s.insert e = some s') :
    ¬ s.Conflicts e ∧ s'.rows = s.rows ++ [e] := by
  unfold insert at h
  split at h
  · cases h
  · next hc =>
    obtain rfl := Option.some.inj h
    exact ⟨hc, rfl⟩

theorem mem_insert {s s' : Store} {e r : Event} (h : s.insert e = some s') :
    r ∈ s'.rows ↔ r ∈ s.rows ∨ r = e := by
  rw [(insert_rows h).2, List.mem_append, List.mem_singleton]

theorem mem_update {s : Store} {id : String} {v : RelayColumns} {r : Event} :
    r ∈ (s.update id v).rows ↔ ∃ e ∈ s.rows, setRelay id v e = r :=
  List.mem_map

theorem mem_deleteBefore {s : Store} {cutoff : Moment} {r : Event} :
    r ∈ (s.deleteBefore cutoff).rows ↔ r ∈ s.rows ∧ ¬ r.receivedAt.utc < cutoff := by
  rw [deleteBefore, List.mem_filter, decide_eq_true_eq]

theorem mem_expired {s : Store} {cutoff : Moment} {r : Event} :
    r ∈ s.expired cutoff ↔ r ∈ s.rows ∧ r.receivedAt.utc < cutoff := by
  rw [expired, List.mem_filter, decide_eq_true_eq]

/-- A row is determined by its id. -/
theorem eq_of_id {s : Store} {a b : Event} (ha : a ∈ s.rows) (hb : b ∈ s.rows) (h : a.id = b.id) :
    a = b :=
  List.inj_on_of_nodup_map s.ids_nodup ha hb h

/-- A row with a key is determined by its source and key. -/
theorem eq_of_key {s : Store} {a b : Event} (ha : a ∈ s.rows) (hb : b ∈ s.rows)
    (h : a.sameKey b) : a = b := by
  have hsymm : Std.Symm (fun x y : Event => ¬ x.sameKey y) :=
    ⟨fun _ _ hxy hyx => hxy (Event.sameKey_comm hyx)⟩
  by_contra hne
  exact s.keys_unique.forall ha hb hne h

theorem get_eq_some {s : Store} {id : String} {e : Event} :
    s.get id = some e ↔ e ∈ s.rows ∧ e.id = id := by
  constructor
  · intro h
    exact ⟨List.mem_of_find?_eq_some h, by simpa using List.find?_some h⟩
  · intro h'
    obtain ⟨he, rfl⟩ := h'
    cases h : s.get e.id with
    | none =>
      have hnone := List.find?_eq_none.mp h e he
      simp at hnone
    | some f =>
      have hid : f.id = e.id := by simpa using List.find?_some h
      rw [eq_of_id (List.mem_of_find?_eq_some h) he hid]

theorem lookup_eq_some {s : Store} {source key : String} {e : Event} :
    s.lookup source key = some e ↔
      e ∈ s.rows ∧ e.source = source ∧ e.idempotencyKey = some key := by
  constructor
  · intro h
    exact ⟨List.mem_of_find?_eq_some h, by simpa using List.find?_some h⟩
  · intro h'
    obtain ⟨he, hsource, hkey⟩ := h'
    cases h : s.lookup source key with
    | none =>
      have hnone := List.find?_eq_none.mp h e he
      simp [hsource, hkey] at hnone
    | some f =>
      have hf : f.source = source ∧ f.idempotencyKey = some key := by simpa using List.find?_some h
      have hsame : f.sameKey e :=
        ⟨by rw [hf.2]; exact nofun, hf.1.trans hsource.symm, hf.2.trans hkey.symm⟩
      rw [eq_of_key (List.mem_of_find?_eq_some h) he hsame]

theorem lookup_eq_none {s : Store} {source key : String} :
    s.lookup source key = none ↔
      ∀ e ∈ s.rows, ¬ (e.source = source ∧ e.idempotencyKey = some key) := by
  simp [lookup, List.find?_eq_none]

/-- An update of a row that is gone leaves the table unchanged. -/
theorem update_absent {s : Store} {id : String} (v : RelayColumns) (h : s.get id = none) :
    s.update id v = s := by
  apply ext_rows
  have hid : ∀ e ∈ s.rows, setRelay id v e = e := by
    intro e he
    have hne : ¬ e.id = id := by simpa using List.find?_eq_none.mp h e he
    exact if_neg hne
  exact (List.map_congr_left hid).trans (List.map_id _)

end Store

end WebhookRelay
