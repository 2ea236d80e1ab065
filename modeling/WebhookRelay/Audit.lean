import WebhookRelay.Journal
import WebhookRelay.Logging

/-
  The log of a process as an account of its run. The stream the handler writes has
  a line for each entry of the journal, and lines of other loggers between them. A
  reader who splits it and parses each line finds the objects of the entries, in
  their order (`own_objects`), and so the counters of the process and the events it
  counted (`log_tells`).
-/
namespace WebhookRelay

open Py Transition

/-! ## Records -/

/-- The attributes `LogRecord` sets itself. -/
def recordAttributes : List String :=
  ["name", "msg", "args", "levelname", "levelno", "pathname", "filename", "module", "exc_info", "exc_text",
    "stack_info", "lineno", "funcName", "created", "msecs", "relativeCreated", "thread", "threadName",
    "processName", "process"]

/-- `taskName`, which an interpreter from 3.12 on sets too. -/
def taskNameAttribute (taskName : Option (Option String)) : List (String × Json) :=
  match taskName with
  | none => []
  | some name => [("taskName", jsonOption jsonString name)]

/-- The attributes of an entry's record that a line shows. -/
def Entry.shown (e : Entry) (taskName : Option (Option String)) : List (String × Json) :=
  taskNameAttribute taskName ++ e.extra

theorem Entry.shown_keys (e : Entry) (taskName : Option (Option String)) :
    (recordAttributes ++ (e.shown taskName).map Prod.fst).Nodup ∧
      ∀ key ∈ (e.shown taskName).map Prod.fst, key ∉ excludedAttributes ∧ key ∉ ["ts", "level", "logger"] := by
  have hall : ∀ keys ∈ [["source", "event_id"], ["status_code", "attempt"], ["attempt"], ["attempt", "error"],
      ["worker"]], ∀ own ∈ [[], ["taskName"]], (recordAttributes ++ (own ++ keys)).Nodup ∧
        ∀ key ∈ own ++ keys, key ∉ excludedAttributes ∧ key ∉ ["ts", "level", "logger"] := by
    decide +kernel
  have hown : (taskNameAttribute taskName).map Prod.fst ∈ [[], ["taskName"]] := by
    cases taskName <;> simp [taskNameAttribute]
  rw [Entry.shown, List.map_append]
  exact hall _ e.extra_keys _ hown

/-- The record of an entry. -/
def Entry.record (e : Entry) (taskName : Option (Option String)) : LogRecord where
  levelname := e.levelname
  name := e.logger
  message := e.message
  requestId := none
  dict := recordAttributes.map (·, none) ++ (e.shown taskName).map (fun m => (m.1, some m.2))
  nodup := by
    have hkeys := (e.shown_keys taskName).1
    simpa only [List.map_append, List.map_map, Function.comp_def, List.map_id'] using hkeys

/-! ## The stream -/

def ownLoggers : List String := ["app.api", "app.relay"]

/-- A call of one of the two loggers. -/
def LogCall.own (call : LogCall) : Bool := ownLoggers.contains call.record.name

/-- The call that an entry of the journal is. -/
structure LogCall.Of (call : LogCall) (entry : String × Entry) : Prop where
  requestId : call.requestId = entry.1
  record : ∃ taskName, call.record = entry.2.record taskName

/-- The calls a process makes when the root logger has a level: those of the
entries that are enabled, in their order, and between them calls of other
loggers, which pass no `logger` of their own. -/
structure Written (level : Nat) (entries : List (String × Entry)) (calls : List LogCall) : Prop where
  own : List.Forall₂ LogCall.Of (calls.filter LogCall.own) (entries.filter (fun e => level ≤ e.2.levelno))
  others : ∀ call ∈ calls, call.own = false → "logger" ∉ call.record.dict.map Prod.fst

/-! ## Reading it -/

/-- The object of a line, if it has one. -/
def readObject (reader : Interp) (line : Str) : Option (List (Str × Json)) :=
  line.encode.bind (fun cs =>
    match loads reader cs with
    | .ok (.obj fields) => some fields
    | _ => none)

/-- The objects of a log, line by line. -/
def readLog (reader : Interp) (log : Str) : List (List (Str × Json)) :=
  (splitLines log).1.filterMap (readObject reader)

/-- The text of an object under a key. -/
def textField (key : String) (object : List (Str × Json)) : Option Str :=
  match object.lookup (text key) with
  | some (.str s) => some s
  | _ => none

/-- An object of one of the two loggers. -/
def ownObject (object : List (Str × Json)) : Bool :=
  ownLoggers.any (fun logger => textField "logger" object == some (text logger))

/-- What the object of an entry's line has. -/
structure Entry.Reads (entry : String × Entry) (object : List (Str × Json)) : Prop where
  requestId : object.lookup (text "request_id") = some (jsonString entry.1)
  level : object.lookup (text "level") = some (jsonString entry.2.levelname)
  logger : object.lookup (text "logger") = some (jsonString entry.2.logger)
  message : object.lookup (text "message") = some (jsonString entry.2.message)
  extra : ∀ m ∈ entry.2.extra, object.lookup (text m.1) = some m.2

/-! ## The line of an entry -/

theorem lookup_of_mem {items : List (Str × Json)} (h : (items.map Prod.fst).Nodup) {m : Str × Json} (hm : m ∈ items) :
    items.lookup m.1 = some m.2 := by
  induction items with
  | nil => cases hm
  | cons x xs ih =>
    obtain ⟨k, v⟩ := x
    obtain ⟨hnew, hrest⟩ := List.nodup_cons.mp h
    rcases List.mem_cons.mp hm with rfl | hm
    · rw [List.lookup_cons, beq_self_eq_true]
    · have hne : m.1 ≠ k := fun heq => hnew (heq ▸ List.mem_map.mpr ⟨m, hm, rfl⟩)
      rw [List.lookup_cons, beq_false_of_ne hne]
      exact ih hrest hm

section

variable {entry : String × Entry} {call : LogCall}

/-- A line shows the attributes of its entry's record that are not left out. -/
theorem Entry.record_extras (e : Entry) (taskName : Option (Option String)) :
    jsonMembers (e.record taskName).extras = some ((e.shown taskName).map (fun m => (text m.1, m.2))) := by
  have hnone : recordAttributes.filter (fun key => key ∉ excludedAttributes) = [] := by decide +kernel
  have hshown : ∀ m ∈ e.shown taskName, m.1 ∉ excludedAttributes := by
    intro m hm
    exact ((e.shown_keys taskName).2 m.1 (List.mem_map.mpr ⟨m, hm, rfl⟩)).1
  have hextras : (e.record taskName).extras = (e.shown taskName).map (fun m => (m.1, some m.2)) := by
    rw [LogRecord.extras, Entry.record, List.filter_append, List.filter_map, List.filter_map]
    simp only [Function.comp_def, hnone, List.map_nil, List.nil_append]
    rw [List.filter_eq_self.mpr]
    intro m hm
    exact decide_eq_true (hshown m hm)
  rw [hextras, jsonMembers_map]

theorem Entry.shown_scalars (e : Entry) (taskName : Option (Option String)) :
    ∀ m ∈ e.shown taskName, m.2.all (fun _ => true) Str.scalars = true := by
  have hstring : ∀ s, (jsonString s).all (fun _ => true) Str.scalars = true := fun s => scalars_text s
  have hint : ∀ i, (Json.int i).all (fun _ => true) Str.scalars = true := fun i => rfl
  have hextra : ∀ m ∈ e.extra, m.2.all (fun _ => true) Str.scalars = true := by
    cases e <;> simp [Entry.extra, hstring, hint]
  have hname : ∀ m ∈ taskNameAttribute taskName, m.2.all (fun _ => true) Str.scalars = true := by
    cases taskName with
    | none => exact fun m hm => absurd hm List.not_mem_nil
    | some name =>
      intro m hm
      rw [List.mem_singleton.mp hm]
      cases name with
      | none => rfl
      | some name => exact hstring name
  exact List.forall_mem_append.mpr ⟨hname, hextra⟩

/-- The line of an entry is read as an object of it. -/
theorem reads_entry {reader : Interp} {line : Str} (hof : call.Of entry)
    (hemit : call.emit = .ok (line ++ [lineFeed])) (hshows : call.Shows reader line) :
    ∃ object, readObject reader line = some object ∧ Entry.Reads entry object := by
  obtain ⟨taskName, hrecord⟩ := hof.record
  have hmembers : jsonMembers call.record.extras = some ((entry.2.shown taskName).map (fun m => (text m.1, m.2))) := by
    rw [hrecord, Entry.record_extras]
  obtain ⟨extras', hextras', hline⟩ := emit_written hemit
  obtain ⟨extras, fields, hextras, -, hloads, hlookup, hid⟩ := hshows
  obtain rfl : (entry.2.shown taskName).map (fun m => (text m.1, m.2)) = extras :=
    Option.some.inj (hmembers.symm.trans hextras)
  obtain rfl : (entry.2.shown taskName).map (fun m => (text m.1, m.2)) = extras' :=
    Option.some.inj (hmembers.symm.trans hextras')
  -- every string of the object is text, so the line encodes
  obtain ⟨cs, hcs⟩ : ∃ cs, line.encode = some cs := by
    apply (encodes_iff rfl hline).mpr
    rw [Json.all, allFields_iff]
    intro m hm
    rcases mem_updated hm with hm | hm
    · exact base_scalars _ _ m hm
    · obtain ⟨m', hm', rfl⟩ := List.mem_map.mp hm
      exact ⟨scalars_text _, entry.2.shown_scalars taskName m' hm'⟩
  have hobject : readObject reader line = some fields := by
    rw [readObject, hcs, Option.bind_some, hloads cs hcs]
  have hunshown : ∀ key, key ∈ ["ts", "level", "logger"] →
      ((entry.2.shown taskName).map (fun m => (text m.1, m.2))).lookup (text key) = none := by
    intro key hkey
    rw [List.lookup_eq_none_iff]
    intro m hm
    obtain ⟨m', hm', rfl⟩ := List.mem_map.mp hm
    rw [bne_iff_ne]
    intro heq
    have hout := ((entry.2.shown_keys taskName).2 m'.1 (List.mem_map.mpr ⟨m', hm', rfl⟩)).2
    exact hout (text_inj.mp heq ▸ hkey)
  have hfiltered : jsonMembers call.filtered.extras = some _ := hmembers
  refine ⟨fields, hobject, ?_, ?_, ?_, ?_, ?_⟩
  · rw [hid, hof.requestId]
  · rw [hlookup, hunshown _ (by decide), LogCall.filtered, hrecord]
    rfl
  · rw [hlookup, hunshown _ (by decide), LogCall.filtered, hrecord]
    rfl
  · rw [hlookup, extras_excluded hfiltered (by decide), LogCall.filtered, hrecord]
    rfl
  · intro m hm
    have hmem : (text m.1, m.2) ∈ (entry.2.shown taskName).map (fun m => (text m.1, m.2)) :=
      List.mem_map.mpr ⟨m, List.mem_append_right _ hm, rfl⟩
    have hextra := lookup_of_mem (extras_nodup hfiltered) hmem
    rw [hlookup, hextra]
    rfl

/-- The line of another logger is read as an object of another logger. -/
theorem not_own {reader : Interp} {line : Str} {object : List (Str × Json)} (hown : call.own = false)
    (hlogger : "logger" ∉ call.record.dict.map Prod.fst) (hshows : call.Shows reader line)
    (h : readObject reader line = some object) : ownObject object = false := by
  obtain ⟨extras, fields, hextras, -, hloads, hlookup, -⟩ := hshows
  obtain ⟨cs, hcs, hread⟩ := Option.bind_eq_some_iff.mp h
  rw [hloads cs hcs] at hread
  obtain rfl := Option.some.inj hread
  have hnone : extras.lookup (text "logger") = none := by
    rw [List.lookup_eq_none_iff]
    intro m hm
    rw [bne_iff_ne]
    intro heq
    have hkey : text "logger" ∈ (call.record.extras.map Prod.fst).map text := by
      rw [← jsonMembers_some hextras, heq]
      exact List.mem_map.mpr ⟨m, hm, rfl⟩
    obtain ⟨key, hkey, hkeytext⟩ := List.mem_map.mp hkey
    obtain rfl := text_inj.mp hkeytext
    exact hlogger ((List.filter_sublist.map Prod.fst).subset hkey)
  have hname : textField "logger" fields = some (text call.record.name) := by
    rw [textField, hlookup, hnone]
    rfl
  rw [ownObject, hname, List.any_eq_false]
  intro logger hmem heq
  obtain rfl := text_inj.mp (Option.some.inj (beq_iff_eq.mp heq))
  rw [LogCall.own, List.contains_iff_mem.mpr hmem] at hown
  cases hown

end

/-- The objects of the two loggers are those of the entries, in their order. -/
theorem own_objects {reader : Interp} {calls : List LogCall} {lines : List Str} {entries : List (String × Entry)}
    (hlines : List.Forall₂ (fun call line => call.emit = .ok (line ++ [lineFeed]) ∧ call.Shows reader line) calls lines)
    (hown : List.Forall₂ LogCall.Of (calls.filter LogCall.own) entries)
    (hothers : ∀ call ∈ calls, call.own = false → "logger" ∉ call.record.dict.map Prod.fst) :
    List.Forall₂ Entry.Reads entries ((lines.filterMap (readObject reader)).filter ownObject) := by
  induction hlines generalizing entries with
  | nil =>
    cases hown
    exact .nil
  | @cons call line calls lines hline hrest ih =>
    obtain ⟨hemit, hshows⟩ := hline
    obtain ⟨hcall, hcalls⟩ := List.forall_mem_cons.mp hothers
    cases hmine : call.own with
    | true =>
      rw [List.filter_cons_of_pos hmine] at hown
      cases hown with
      | @cons _ entry _ entries hof hown =>
        obtain ⟨object, hobject, hreads⟩ := reads_entry hof hemit hshows
        have hkept : ownObject object = true := by
          have hname : textField "logger" object = some (text entry.2.logger) := by
            rw [textField, hreads.logger]
            rfl
          rw [ownObject, hname, List.any_eq_true]
          obtain ⟨taskName, hrecord⟩ := hof.record
          refine ⟨entry.2.logger, ?_, beq_self_eq_true _⟩
          rw [LogCall.own, hrecord] at hmine
          exact List.contains_iff_mem.mp hmine
        rw [List.filterMap_cons_some hobject, List.filter_cons_of_pos hkept]
        exact .cons hreads (ih hown hcalls)
    | false =>
      rw [List.filter_cons_of_neg (by rw [hmine]; exact Bool.false_ne_true)] at hown
      have hkept := ih hown hcalls
      cases hobject : readObject reader line with
      | none =>
        rw [List.filterMap_cons_none hobject]
        exact hkept
      | some object =>
        have hother := not_own hmine (hcall hmine) hshows hobject
        rw [List.filterMap_cons_some hobject, List.filter_cons_of_neg (by rw [hother]; exact Bool.false_ne_true)]
        exact hkept

theorem Entry.extra_fits {reader : Interp} {d : Nat} {e : Entry} (h : ∀ i ∈ e.numbers, (Json.int i).Fits reader d) :
    ∀ m ∈ e.extra, m.2.Fits reader d := by
  have hstring : ∀ s, (jsonString s).Fits reader d := fun s => fits_jsonString s
  cases e <;>
    simp only [numbers, extra, List.forall_mem_cons, List.not_mem_nil, false_implies, implies_true, and_true,
      hstring] at h ⊢ <;> exact h

/-- The call of an entry can be written if its integers can. -/
theorem LogCall.Of.writable {call : LogCall} {entry : String × Entry} (hof : call.Of entry) {reader : Interp} {d : Nat}
    (h : ∀ i ∈ entry.2.numbers, (Json.int i).Fits reader d) : call.Writable reader d := by
  obtain ⟨taskName, hrecord⟩ := hof.record
  have hname : ∀ m ∈ taskNameAttribute taskName, m.2.Fits reader d := by
    cases taskName with
    | none => exact fun m hm => absurd hm List.not_mem_nil
    | some name =>
      intro m hm
      rw [List.mem_singleton.mp hm]
      exact fits_jsonOption (fun s _ => fits_jsonString s)
  refine ⟨_, hrecord ▸ entry.2.record_extras taskName, ?_⟩
  intro m hm
  obtain ⟨m', hm', rfl⟩ := List.mem_map.mp hm
  exact List.forall_mem_append.mpr ⟨hname, Entry.extra_fits h⟩ m' hm'

/-! ## What a reader counts -/

/-- An object of a message of a logger. -/
def isMessage (logger message : String) (object : List (Str × Json)) : Bool :=
  textField "logger" object == some (text logger) && textField "message" object == some (text message)

/-- The messages of a POST that has ended in a response or an `httpx.HTTPError`. -/
def answerMessages : List String :=
  ["relay_success", "relay_non_2xx", "relay_timeout", "relay_connect_error", "relay_http_error"]

/-- The event ids of the received events. -/
def receivedIds (objects : List (List (Str × Json))) : List Str :=
  (objects.filter (isMessage "app.api" "event_received")).filterMap (textField "event_id")

/-- What a reader counts is what the process has counted. -/
structure Proc.Told (P : Proc) (objects : List (List (Str × Json))) : Prop where
  received : ∀ source, objects.countP (fun object => isMessage "app.api" "event_received" object &&
    textField "source" object == some (text source)) = P.eventsReceivedTotal source
  successes : objects.countP (isMessage "app.relay" "relay_success") = P.relaySuccessesTotal
  answers : objects.countP (fun object => answerMessages.any (fun message => isMessage "app.relay" message object)) =
    P.relayLatencyCount

theorem isMessage_own {logger message : String} (hlogger : logger ∈ ownLoggers) {object : List (Str × Json)}
    (h : isMessage logger message object = true) : ownObject object = true := by
  rw [isMessage, Bool.and_eq_true] at h
  exact List.any_eq_true.mpr ⟨logger, hlogger, h.1⟩

theorem text_beq (a b : String) : (some (text a) == some (text b)) = (a == b) := by
  rw [Bool.eq_iff_iff, beq_iff_eq, beq_iff_eq, Option.some.injEq, text_inj]

section

variable {entry : String × Entry} {object : List (Str × Json)}

theorem Entry.Reads.isMessage_eq (h : Entry.Reads entry object) (logger message : String) :
    isMessage logger message object = (entry.2.logger == logger && entry.2.message == message) := by
  have hlogger : textField "logger" object = some (text entry.2.logger) := by
    rw [textField, h.logger]
    rfl
  have hmessage : textField "message" object = some (text entry.2.message) := by
    rw [textField, h.message]
    rfl
  rw [isMessage, hlogger, hmessage, text_beq, text_beq]

theorem Entry.Reads.text_eq (h : Entry.Reads entry object) {key value : String}
    (hm : (key, jsonString value) ∈ entry.2.extra) : textField key object = some (text value) := by
  rw [textField, h.extra _ hm]
  rfl

/-- What a reader of one object finds is what its entry is. -/
theorem Entry.Reads.received (h : Entry.Reads entry object) :
    (∀ source, (isMessage "app.api" "event_received" object && textField "source" object == some (text source)) =
        (entry.2.receivedFrom == some source)) ∧
      (if isMessage "app.api" "event_received" object then textField "event_id" object else none) =
        entry.2.receivedId.map text := by
  rw [h.isMessage_eq]
  obtain ⟨id, entry⟩ := entry
  cases entry with
  | eventReceived source eventId =>
    have hsource : textField "source" object = some (text source) := h.text_eq List.mem_cons_self
    have hid : textField "event_id" object = some (text eventId) := h.text_eq (List.mem_cons_of_mem _ List.mem_cons_self)
    rw [hsource, hid]
    simp [Entry.logger, Entry.message, Entry.receivedFrom, Entry.receivedId, text_inj]
  | relayQueueFull _ _ | relaySuccess _ _ | relayNon2xx _ _ | relayTimeout _ | relayConnectError _ _
  | relayHttpError _ _ | relayDispatchJobFailed _ =>
    simp [Entry.logger, Entry.message, Entry.receivedFrom, Entry.receivedId]

theorem Entry.Reads.relayed (h : Entry.Reads entry object) :
    isMessage "app.relay" "relay_success" object = entry.2.isSuccess ∧
      answerMessages.any (fun message => isMessage "app.relay" message object) = entry.2.isAnswer := by
  simp only [h.isMessage_eq]
  obtain ⟨id, entry⟩ := entry
  cases entry <;> simp [Entry.logger, Entry.message, Entry.isSuccess, Entry.isAnswer, answerMessages]

end

theorem exists_of_forall₂ {α β : Type} {R : α → β → Prop} {l : List α} {m : List β} (h : List.Forall₂ R l m) {x : α}
    (hx : x ∈ l) : ∃ y ∈ m, R x y := by
  induction h with
  | nil => cases hx
  | @cons x' y' l m hxy _ ih =>
    rcases List.mem_cons.mp hx with rfl | hx
    · exact ⟨y', List.mem_cons_self, hxy⟩
    · obtain ⟨y, hy, hr⟩ := ih hx
      exact ⟨y, List.mem_cons_of_mem _ hy, hr⟩

theorem countP_forall₂ {α β : Type} {R : α → β → Prop} {f : α → Bool} {g : β → Bool} {l : List α} {m : List β}
    (h : List.Forall₂ R l m) (hR : ∀ x y, R x y → g y = f x) : m.countP g = l.countP f := by
  have hmap : l.map f = m.map g := by
    rw [← List.forall₂_eq_eq_eq, List.forall₂_map_left_iff, List.forall₂_map_right_iff]
    exact h.imp (fun x y hxy => (hR x y hxy).symm)
  have hcount : ∀ {γ : Type} (q : γ → Bool) (xs : List γ), xs.countP q = (xs.map q).countP id := by
    intro γ q xs
    rw [List.countP_map]
    rfl
  rw [hcount g, hcount f, hmap]

/-- A reader who counts the objects of the two loggers counts entries. -/
theorem told {P : Proc} {entries : List (String × Entry)} {objects : List (List (Str × Json))}
    (hcounts : P.Counts entries) (h : List.Forall₂ Entry.Reads entries (objects.filter ownObject)) : P.Told objects := by
  have hown : ∀ {g : List (Str × Json) → Bool}, (∀ object, g object = true → ownObject object = true) →
      objects.countP g = (objects.filter ownObject).countP g := by
    intro g hg
    rw [List.countP_filter]
    apply List.countP_congr
    intro object _
    rw [Bool.and_eq_true]
    exact ⟨fun hobject => ⟨hobject, hg object hobject⟩, fun hobject => hobject.1⟩
  refine ⟨?_, ?_, ?_⟩
  · intro source
    rw [hown, countP_forall₂ h (fun entry object hreads => hreads.received.1 source), hcounts.received]
    intro object hobject
    exact isMessage_own (by decide) (Bool.and_eq_true _ _ ▸ hobject).1
  · rw [hown, countP_forall₂ h (fun entry object hreads => hreads.relayed.1), hcounts.successes]
    intro object hobject
    exact isMessage_own (by decide) hobject
  · rw [hown, countP_forall₂ h (fun entry object hreads => hreads.relayed.2), hcounts.answers]
    intro object hobject
    obtain ⟨message, -, hmessage⟩ := List.any_eq_true.mp hobject
    exact isMessage_own (by decide) hmessage

/-- The ids a reader finds are those of the entries. -/
theorem receivedIds_eq {entries : List (String × Entry)} {objects : List (List (Str × Json))}
    (h : List.Forall₂ Entry.Reads entries (objects.filter ownObject)) :
    receivedIds objects = (entries.filterMap (fun e => e.2.receivedId)).map text := by
  have hown : objects.filter (isMessage "app.api" "event_received") =
      (objects.filter ownObject).filter (isMessage "app.api" "event_received") := by
    rw [List.filter_filter]
    apply List.filter_congr
    intro object _
    rw [Bool.eq_iff_iff, Bool.and_eq_true]
    exact ⟨fun hobject => ⟨hobject, isMessage_own (by decide) hobject⟩, fun hobject => hobject.1⟩
  rw [receivedIds, hown, List.map_filterMap]
  generalize objects.filter ownObject = own at h
  induction h with
  | nil => rfl
  | @cons entry object entries own hreads _ ih =>
    have hid := hreads.received.2
    rw [List.filterMap_cons, ← hid, ← ih]
    cases hmessage : isMessage "app.api" "event_received" object with
    | true => rw [List.filter_cons_of_pos hmessage, List.filterMap_cons, if_pos rfl]
    | false => rw [List.filter_cons_of_neg (by rw [hmessage]; exact Bool.false_ne_true), if_neg Bool.false_ne_true]

section

variable {env : Env} {w : World} {as : List Act} {os : List Obs} {worker : Nat → Nat} {p : Nat}

/-- **The log tells.** Take any run, and the stream a process has written in it with
the root logger at INFO or below, other loggers writing what they like in between. A
reader who splits the stream into lines and parses each gets back the counters of
the process and, each once, the ids of the events it stored and counted. -/
theorem log_tells (h : Run (step env) World.initial as os w) {level : Nat} (hlevel : level ≤ 20)
    {calls : List LogCall} (hcalls : Written level (journal env worker p as) calls) {reader : Interp} {d : Nat}
    (hothers : ∀ call ∈ calls, call.own = false → call.Writable reader d) (hdepth : d < reader.maxDepth)
    (hdigits : 3 ≤ reader.maxDigits) (hworker : ∀ t, (Nat.toDigits 10 (worker t)).length ≤ reader.maxDigits)
    (hcodes : ∀ o ∈ os, ∀ c, o.statusCode? = some c → 100 ≤ c ∧ c < 1000) :
    ∃ log, ∃ ids : List String, LogCall.stream calls = .ok log ∧ (w.procs p).Told (readLog reader log) ∧
      receivedIds (readLog reader log) = ids.map text ∧ ids.Nodup ∧
      ∀ id, id ∈ ids ↔ ∃ r i, .built r i ∈ os ∧ i.pid = p ∧ i.event.id = id ∧ .inserted r (i.row env) ∈ os ∧
        w.handlers r ≠ .active i .counting := by
  -- at this level every entry is enabled
  have henabled : (journal env worker p as).filter (fun e => level ≤ e.2.levelno) = journal env worker p as := by
    rw [List.filter_eq_self]
    intro e _
    refine decide_eq_true (hlevel.trans ?_)
    cases e.2 <;> simp [Entry.levelno]
  have hown := hcalls.own
  rw [henabled] at hown
  have hwritable : ∀ call ∈ calls, call.Writable reader d := by
    intro call hcall
    cases hmine : call.own with
    | false => exact hothers call hcall hmine
    | true =>
      obtain ⟨e, he, hof⟩ := exists_of_forall₂ hown (List.mem_filter.mpr ⟨hcall, hmine⟩)
      apply hof.writable
      intro i hi
      rcases journal_numbers worker p h hcodes e he i hi with hsmall | ⟨t, rfl⟩
      · exact fits_small hsmall hdigits
      · exact .int (hworker t)
  obtain ⟨lines, hstream, hprintable, hlines⟩ := stream_lines hwritable hdepth
  have hwhole := hstream calls.length
  rw [List.take_length, hlines.length_eq, List.take_length] at hwhole
  have hreads := own_objects hlines hown hcalls.others
  have hread : readLog reader (lines.flatMap (· ++ [lineFeed])) = lines.filterMap (readObject reader) := by
    rw [readLog, splitLines_lines hprintable]
  rw [← hread] at hreads
  obtain ⟨hnodup, hids⟩ := journal_ids worker p h
  refine ⟨_, _, hwhole, told (counts_run worker p h) hreads, receivedIds_eq hreads, hnodup, ?_⟩
  intro id
  rw [hids]
  constructor
  · rintro ⟨r, i, hb, hc, hp, hid⟩
    obtain ⟨hinserted, hpast⟩ := (counted_iff h hb).mp hc
    exact ⟨r, i, hb, hp, hid, hinserted, hpast⟩
  · rintro ⟨r, i, hb, hp, hid, hinserted, hpast⟩
    exact ⟨r, i, hb, (counted_iff h hb).mpr ⟨hinserted, hpast⟩, hp, hid⟩

end

/-- What a process logs that accepts an event and delivers it: two entries, and the
lines of the startup and of the request between them. -/
def deliveredCalls : List LogCall :=
  [⟨"-", (sampleDraws 1 5).now, ⟨"INFO", "app.main", "app_started", none, [], by decide⟩⟩,
    ⟨"req-1", (sampleDraws 1 10).now,
      (Entry.eventReceived "demo" (sampleDraws 1 10).eventUuid.text).record none⟩,
    ⟨"req-1", (sampleDraws 1 11).now, ⟨"INFO", "app.request", "request", none,
      [("name", none), ("method", some (jsonString "POST")), ("status", some (.int 200))], by decide⟩⟩,
    ⟨"-", (sampleDraws 1 40).now, (Entry.relaySuccess 200 1).record (some (some "Task-3"))⟩]

/-- The log of an event that was delivered. -/
theorem log_tells_delivered :
    ∃ w os log, exec (step sampleEnv) World.initial (acceptActs ++ deliverActs) = some (w, os) ∧
      LogCall.stream deliveredCalls = .ok log ∧
      (readLog sampleEnv.json log).countP (isMessage "app.relay" "relay_success") = 1 ∧
      (readLog sampleEnv.json log).countP (fun object => isMessage "app.api" "event_received" object &&
        textField "source" object == some (text "demo")) = 1 := by
  have hrun : (exec (step sampleEnv) World.initial (acceptActs ++ deliverActs)).map (fun r =>
      ((r.1.procs 0).relaySuccessesTotal, (r.1.procs 0).eventsReceivedTotal "demo", r.2.filterMap Obs.statusCode?)) =
      some (1, 1, [200]) := by
    decide +kernel
  have hjournal : journal sampleEnv (fun _ => 0) 0 (acceptActs ++ deliverActs) =
      [("req-1", .eventReceived "demo" (sampleDraws 1 10).eventUuid.text), ("-", .relaySuccess 200 1)] := by
    decide +kernel
  obtain ⟨⟨w, os⟩, h, hfacts⟩ := Option.map_eq_some_iff.mp hrun
  obtain ⟨hsuccesses, hreceived, hcodes⟩ : (w.procs 0).relaySuccessesTotal = 1 ∧
      (w.procs 0).eventsReceivedTotal "demo" = 1 ∧ os.filterMap Obs.statusCode? = [200] := by
    simpa only [Prod.mk.injEq] using hfacts
  have hrange : ∀ o ∈ os, ∀ c, o.statusCode? = some c → 100 ≤ c ∧ c < 1000 := by
    intro o ho c hc
    have hmem : c ∈ os.filterMap Obs.statusCode? := List.mem_filterMap.mpr ⟨o, ho, hc⟩
    rw [hcodes, List.mem_singleton] at hmem
    omega
  have hwritten : Written 20 (journal sampleEnv (fun _ => 0) 0 (acceptActs ++ deliverActs)) deliveredCalls := by
    rw [hjournal]
    exact ⟨.cons ⟨rfl, _, rfl⟩ (.cons ⟨rfl, _, rfl⟩ .nil), by decide +kernel⟩
  have hothers : ∀ call ∈ deliveredCalls, call.own = false → call.Writable sampleEnv.json 0 := by
    rw [deliveredCalls, List.forall_mem_cons, List.forall_mem_cons, List.forall_mem_cons, List.forall_mem_singleton]
    refine ⟨fun _ => ⟨_, rfl, ?_⟩, fun hown => Bool.noConfusion hown, fun _ => ⟨_, rfl, ?_⟩,
      fun hown => Bool.noConfusion hown⟩
    · intro m hm
      cases hm
    · simp only [List.forall_mem_cons, List.not_mem_nil, false_implies, implies_true, and_true]
      exact ⟨fits_jsonString _, fits_small (by decide) (by decide)⟩
  obtain ⟨log, -, hlog, htold, -⟩ := log_tells (Run.of_exec h) (Nat.le_refl 20) hwritten hothers (by decide) (by decide)
    (fun _ => by decide) hrange
  exact ⟨w, os, log, h, hlog, htold.successes.trans hsuccesses, (htold.received "demo").trans hreceived⟩

end WebhookRelay
