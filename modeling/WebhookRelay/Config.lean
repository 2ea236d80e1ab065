import WebhookRelay.Integers
import WebhookRelay.Preflight

/-
  core/config.py: what `get_settings` makes of the environment variables. A
  setting is trimmed, split, lowercased, read as a number or a flag, bounded from
  below, or taken as it is; what comes out is in the normal form `Config.Normal`.

  Every normal form comes out, and it does from the variables one would write for
  it (`Config.environ`): that is `settings_normal`. What `str.lower` does to a text
  is that of the platform; `LowerLaws` says what the round trip needs of it.
-/
namespace WebhookRelay

open Py

/-! ## Variables -/

/-- The environment variables of a process. -/
abbrev Environ := String → Option String

/-- `os.getenv(name, default)`. -/
def Environ.getenv (e : Environ) (name default : String) : String := (e name).getD default

section

variable (env : Env) (decimal : Char → Option (Fin 10)) (e : Environ)

/-- `_env_bool`. -/
def envBool (name : String) (default : Bool) : Except PyExc Bool :=
  match e name with
  | none => .ok default
  | some raw =>
    let value := env.lower (strip raw)
    if ["1", "true", "yes", "on"].contains value then .ok true
    else if ["0", "false", "no", "off", ""].contains value then .ok false
    else .error (.valueError s!"Invalid boolean value for {name}: {raw}")

/-- `int(value)`. -/
def readInt (value : String) : Except PyExc Int :=
  match intOf decimal env.json.maxDigits value with
  | some i => .ok i
  | none => .error (.valueError s!"invalid literal for int() with base 10: {value}")

/-- `Settings`, the two frozen sets as lists of their items. -/
structure Config where
  appHost : String
  appPort : Int
  databaseUrl : String
  targetUrl : String
  logLevel : String
  webhookSecret : String
  maxBodyBytes : Int
  allowedSources : List String
  relayAllowHosts : List String
  relayAllowPrivateIps : Bool
  relayWorkerConcurrency : Int
  relayQueueSize : Int
  eventRetentionDays : Option Int
  adminToken : String
  deriving DecidableEq

/-- The retention setting, from the trimmed variable. -/
def readRetention (raw : String) : Except PyExc (Option Int) :=
  if raw = "" then .ok none else (readInt env decimal raw).map some

/-- `get_settings`. -/
def getSettings : Except PyExc Config := do
  let appPort ← readInt env decimal (e.getenv "APP_PORT" "8000")
  let maxBodyBytes ← readInt env decimal (e.getenv "MAX_BODY_BYTES" "1048576")
  let allowPrivateIps ← envBool env e "RELAY_ALLOW_PRIVATE_IPS" false
  let workerConcurrency ← readInt env decimal (e.getenv "RELAY_WORKER_CONCURRENCY" "8")
  let queueSize ← readInt env decimal (e.getenv "RELAY_QUEUE_SIZE" "1000")
  let retentionDays ← readRetention env decimal (strip (e.getenv "EVENT_RETENTION_DAYS" ""))
  return {
    appHost := e.getenv "APP_HOST" "0.0.0.0"
    appPort := appPort
    databaseUrl := e.getenv "DATABASE_URL" "sqlite:///./data/app.db"
    targetUrl := strip (e.getenv "TARGET_URL" "")
    logLevel := e.getenv "LOG_LEVEL" "INFO"
    webhookSecret := e.getenv "WEBHOOK_SECRET" ""
    maxBodyBytes := maxBodyBytes
    allowedSources := csvSet (e "ALLOWED_SOURCES")
    relayAllowHosts := relayAllowHosts env (e "RELAY_ALLOW_HOSTS")
    relayAllowPrivateIps := allowPrivateIps
    relayWorkerConcurrency := max workerConcurrency 1
    relayQueueSize := max queueSize 1
    eventRetentionDays := retentionDays
    adminToken := e.getenv "ADMIN_TOKEN" "" }

end

/-- What the rest of the model reads of the settings. -/
def Config.settings (c : Config) : Settings where
  targetUrl := c.targetUrl
  webhookSecret := text c.webhookSecret
  maxBodyBytes := c.maxBodyBytes
  allowedSources := c.allowedSources
  relayAllowHosts := c.relayAllowHosts
  relayAllowPrivateIps := c.relayAllowPrivateIps
  relayWorkerConcurrency := c.relayWorkerConcurrency
  relayQueueSize := c.relayQueueSize
  eventRetentionDays := c.eventRetentionDays
  adminToken := text c.adminToken

/-! ## Normal forms -/

/-- An item of a comma-separated variable. -/
def Item (s : String) : Prop := s ≠ "" ∧ strip s = s ∧ ',' ∉ s.toList

/-- An integer the interpreter can write and read. -/
def Literal (env : Env) (i : Int) : Prop := (Nat.toDigits 10 i.natAbs).length ≤ env.json.maxDigits

/-- What `get_settings` promises of its result. -/
structure Config.Normal (env : Env) (c : Config) : Prop where
  targetUrl : strip c.targetUrl = c.targetUrl
  sources : ∀ s ∈ c.allowedSources, Item s
  hosts : ∀ s ∈ c.relayAllowHosts, Item s ∧ env.lower s = s
  workers : 1 ≤ c.relayWorkerConcurrency
  queue : 1 ≤ c.relayQueueSize
  port : Literal env c.appPort
  body : Literal env c.maxBodyBytes
  workerDigits : Literal env c.relayWorkerConcurrency
  queueDigits : Literal env c.relayQueueSize
  retention : ∀ days, c.eventRetentionDays = some days → Literal env days

/-- `str.lower` is done when done once, and makes no comma, no space at an end and
no empty text where there was none. -/
structure LowerLaws (lower : String → String) : Prop where
  lower_lower : ∀ s, lower (lower s) = lower s
  item : ∀ s, Item s → Item (lower s)
  flags : lower "0" = "0" ∧ lower "1" = "1"

/-- `",".join(items)`. -/
def joinComma (items : List String) : String := String.ofList ([','].intercalate (items.map String.toList))

/-- The variables one would write for the settings. -/
def Config.environ (c : Config) : Environ := fun name =>
  [("APP_HOST", c.appHost), ("APP_PORT", strInt c.appPort), ("DATABASE_URL", c.databaseUrl),
    ("TARGET_URL", c.targetUrl), ("LOG_LEVEL", c.logLevel), ("WEBHOOK_SECRET", c.webhookSecret),
    ("MAX_BODY_BYTES", strInt c.maxBodyBytes), ("ALLOWED_SOURCES", joinComma c.allowedSources),
    ("RELAY_ALLOW_HOSTS", joinComma c.relayAllowHosts),
    ("RELAY_ALLOW_PRIVATE_IPS", if c.relayAllowPrivateIps then "1" else "0"),
    ("RELAY_WORKER_CONCURRENCY", strInt c.relayWorkerConcurrency),
    ("RELAY_QUEUE_SIZE", strInt c.relayQueueSize),
    ("EVENT_RETENTION_DAYS", match c.eventRetentionDays with | none => "" | some days => strInt days),
    ("ADMIN_TOKEN", c.adminToken)].lookup name

/-! ## Items -/

theorem strip_eq (s : String) : strip s = String.ofList (trim isSpace s.toList) := rfl

theorem strip_strip (s : String) : strip (strip s) = strip s := by
  rw [strip_eq, strip_eq, String.toList_ofList, trim_trim]

/-- What is between two separators has none. -/
theorem not_mem_splitOn (sep : Char) (cs : List Char) : ∀ l ∈ cs.splitOn sep, sep ∉ l := by
  induction cs with
  | nil =>
    intro l hl
    rw [List.splitOn_nil, List.mem_singleton] at hl
    rw [hl]
    exact List.not_mem_nil
  | cons c cs ih =>
    intro l hl
    rw [List.splitOn_cons_eq_if_modifyHead] at hl
    split at hl
    · rcases List.mem_cons.mp hl with rfl | hl
      · exact List.not_mem_nil
      · exact ih l hl
    · next hne =>
      cases hsplit : cs.splitOn sep with
      | nil => exact absurd hsplit (List.splitOn_ne_nil sep cs)
      | cons l' ls =>
        rw [hsplit] at hl ih
        rcases List.mem_cons.mp hl with rfl | hl
        · intro hmem
          rcases List.mem_cons.mp hmem with rfl | hmem
          · exact hne (beq_self_eq_true _)
          · exact ih l' List.mem_cons_self hmem
        · exact ih l (List.mem_cons_of_mem _ hl)

theorem csvSet_items {raw : Option String} : ∀ s ∈ csvSet raw, Item s := by
  intro s hs
  obtain ⟨item, hitem, hne, rfl⟩ := mem_csvSet.mp hs
  obtain ⟨l, hl, rfl⟩ := List.mem_map.mp hitem
  refine ⟨hne, strip_strip _, ?_⟩
  intro hcomma
  rw [strip_eq, String.toList_ofList, String.toList_ofList] at hcomma
  exact not_mem_splitOn ',' _ l hl (mem_of_mem_trim hcomma)

/-- No item is left when every item is blank. -/
theorem csvSet_nil {raw : Option String} :
    csvSet raw = [] ↔ ∀ item ∈ splitComma (raw.getD ""), strip item = "" := by
  rw [List.eq_nil_iff_forall_not_mem]
  simp only [mem_csvSet]
  constructor
  · intro h item hitem
    by_contra hne
    exact h (strip item) ⟨item, hitem, hne, rfl⟩
  · rintro h host ⟨item, hitem, hne, -⟩
    exact hne (h item hitem)

/-- Items that are joined are split again. -/
theorem csvSet_join {items : List String} (h : ∀ s ∈ items, Item s) : csvSet (some (joinComma items)) = items := by
  cases items with
  | nil => rfl
  | cons s rest =>
    have hsplit : splitComma (joinComma (s :: rest)) = s :: rest := by
      rw [splitComma, joinComma, String.toList_ofList, List.splitOn_intercalate]
      · rw [List.map_map]
        exact List.map_id'' (fun x => String.ofList_toList) _
      · intro l hl
        obtain ⟨x, hx, rfl⟩ := List.mem_map.mp hl
        exact (h x hx).2.2
      · exact List.cons_ne_nil _ _
    have hne : joinComma (s :: rest) ≠ "" := by
      intro hempty
      rw [hempty] at hsplit
      have hs : splitComma "" = [""] := by decide +kernel
      rw [hs] at hsplit
      exact (h s List.mem_cons_self).1 (List.cons.inj hsplit).1.symm
    have hkept : (s :: rest).filter (fun item => strip item ≠ "") = s :: rest := by
      apply List.filter_eq_self.mpr
      intro x hx
      rw [decide_eq_true_eq, (h x hx).2.1]
      exact (h x hx).1
    rw [csvSet, if_neg hne, hsplit, hkept]
    calc (s :: rest).map strip
        = (s :: rest).map id := List.map_congr_left (fun x hx => (h x hx).2.1)
      _ = s :: rest := List.map_id _

/-! ## Settings -/

section

variable {env : Env} {decimal : Char → Option (Fin 10)} {e : Environ} {c : Config}

theorem readInt_ok {value : String} {i : Int} :
    readInt env decimal value = .ok i ↔ intOf decimal env.json.maxDigits value = some i := by
  unfold readInt
  split
  · next j hj =>
    rw [hj, Except.ok.injEq, Option.some.injEq]
  · next hnone =>
    rw [hnone]
    constructor
    · intro h
      cases h
    · intro h
      cases h

theorem readInt_literal {value : String} {i : Int} (h : readInt env decimal value = .ok i) : Literal env i :=
  intOf_length (readInt_ok.mp h)

theorem readInt_str {i : Int} (h : Literal env i) : readInt env decimal (strInt i) = .ok i :=
  readInt_ok.mpr (intOf_str h)

theorem strInt_ne (i : Int) : strInt i ≠ "" := by
  intro hempty
  have hnil := congrArg String.toList hempty
  rw [strInt, String.toList_ofList] at hnil
  exact Nat.toDigits_ne_nil (List.append_eq_nil_iff.mp hnil).2

theorem strip_strInt (i : Int) : strip (strInt i) = strInt i := by
  have hdigit : ∀ c ∈ Nat.toDigits 10 i.natAbs, isSpace c = false := fun c hc => isDigit_not_space (toDigits_isDigit hc)
  have hall : ∀ c ∈ (strInt i).toList, isSpace c = false := by
    intro c hc
    rw [strInt, String.toList_ofList, List.mem_append] at hc
    rcases hc with hc | hc
    · split at hc
      · rw [List.mem_singleton.mp hc]
        decide
      · cases hc
    · exact hdigit c hc
  have hnil : ∀ c ∈ ([] : List Char), isSpace c = true := fun c hc => absurd hc List.not_mem_nil
  have htrim := trim_eq hnil hnil (fun c hc => hall c (List.mem_of_mem_head? hc))
    (fun c hc => hall c (List.mem_of_mem_getLast? hc))
  rw [List.nil_append, List.append_nil] at htrim
  rw [strip_eq, htrim, String.ofList_toList]

/-- What `get_settings` read, if it did not raise. -/
theorem getSettings_ok (h : getSettings env decimal e = .ok c) :
    ∃ workerConcurrency queueSize,
      readInt env decimal (e.getenv "APP_PORT" "8000") = .ok c.appPort ∧
      readInt env decimal (e.getenv "MAX_BODY_BYTES" "1048576") = .ok c.maxBodyBytes ∧
      envBool env e "RELAY_ALLOW_PRIVATE_IPS" false = .ok c.relayAllowPrivateIps ∧
      readInt env decimal (e.getenv "RELAY_WORKER_CONCURRENCY" "8") = .ok workerConcurrency ∧
      readInt env decimal (e.getenv "RELAY_QUEUE_SIZE" "1000") = .ok queueSize ∧
      readRetention env decimal (strip (e.getenv "EVENT_RETENTION_DAYS" "")) = .ok c.eventRetentionDays ∧
      c = { c with
        appHost := e.getenv "APP_HOST" "0.0.0.0"
        databaseUrl := e.getenv "DATABASE_URL" "sqlite:///./data/app.db"
        targetUrl := strip (e.getenv "TARGET_URL" "")
        logLevel := e.getenv "LOG_LEVEL" "INFO"
        webhookSecret := e.getenv "WEBHOOK_SECRET" ""
        allowedSources := csvSet (e "ALLOWED_SOURCES")
        relayAllowHosts := relayAllowHosts env (e "RELAY_ALLOW_HOSTS")
        relayWorkerConcurrency := max workerConcurrency 1
        relayQueueSize := max queueSize 1
        adminToken := e.getenv "ADMIN_TOKEN" "" } := by
  obtain ⟨port, hport, h⟩ := except_bind_ok h
  obtain ⟨body, hbody, h⟩ := except_bind_ok h
  obtain ⟨allow, hallow, h⟩ := except_bind_ok h
  obtain ⟨workers, hworkers, h⟩ := except_bind_ok h
  obtain ⟨queue, hqueue, h⟩ := except_bind_ok h
  obtain ⟨days, hdays, h⟩ := except_bind_ok h
  cases h
  exact ⟨workers, queue, hport, hbody, hallow, hworkers, hqueue, hdays, rfl⟩

/-- A bound from below keeps an integer that can be written. -/
theorem literal_max {i : Int} (h : Literal env i) : Literal env (max i 1) := by
  have hone : (Nat.toDigits 10 (1 : Int).natAbs).length ≤ (Nat.toDigits 10 i.natAbs).length :=
    List.length_pos_iff.mpr Nat.toDigits_ne_nil
  rcases max_choice i 1 with hmax | hmax <;> rw [hmax]
  · exact h
  · exact hone.trans h

/-- What `get_settings` returns is in normal form. -/
theorem getSettings_normal (hlower : LowerLaws env.lower) (h : getSettings env decimal e = .ok c) : c.Normal env := by
  obtain ⟨workers, queue, hport, hbody, -, hworkers, hqueue, hdays, hc⟩ := getSettings_ok h
  have hretention : ∀ days, c.eventRetentionDays = some days → Literal env days := by
    intro days heq
    rw [readRetention, heq] at hdays
    split at hdays
    · cases hdays
    · obtain ⟨i, hi, hsome⟩ : ∃ i, readInt env decimal (strip (e.getenv "EVENT_RETENTION_DAYS" "")) = .ok i ∧
          some i = some days := by
        cases hread : readInt env decimal (strip (e.getenv "EVENT_RETENTION_DAYS" "")) with
        | error exc =>
          rw [hread] at hdays
          cases hdays
        | ok i =>
          rw [hread] at hdays
          exact ⟨i, rfl, Except.ok.inj hdays⟩
      cases hsome
      exact readInt_literal hi
  rw [hc]
  refine ⟨strip_strip _, csvSet_items, ?_, le_max_right _ _, le_max_right _ _, readInt_literal hport,
    readInt_literal hbody, literal_max (readInt_literal hworkers), literal_max (readInt_literal hqueue), hretention⟩
  intro s hs
  obtain ⟨item, hitem, rfl⟩ := List.mem_map.mp hs
  exact ⟨hlower.item item (csvSet_items item hitem), hlower.lower_lower item⟩

/-- A flag that is written reads back. -/
theorem envBool_environ (hlower : LowerLaws env.lower) (c : Config) :
    envBool env c.environ "RELAY_ALLOW_PRIVATE_IPS" false = .ok c.relayAllowPrivateIps := by
  have hget : c.environ "RELAY_ALLOW_PRIVATE_IPS" = some (if c.relayAllowPrivateIps then "1" else "0") := rfl
  have hone : env.lower (strip "1") = "1" := hlower.flags.2
  have hzero : env.lower (strip "0") = "0" := hlower.flags.1
  rw [envBool, hget]
  cases c.relayAllowPrivateIps with
  | true =>
    simp only [if_true, hone]
    rfl
  | false =>
    simp only [Bool.false_eq_true, if_false, hzero]
    rfl

/-- So does a retention setting. -/
theorem readRetention_environ (h : c.Normal env) :
    readRetention env decimal (strip (c.environ.getenv "EVENT_RETENTION_DAYS" "")) = .ok c.eventRetentionDays := by
  have hget : c.environ.getenv "EVENT_RETENTION_DAYS" "" =
      match c.eventRetentionDays with | none => "" | some days => strInt days := rfl
  rw [hget]
  cases hdays : c.eventRetentionDays with
  | none => rfl
  | some days =>
    show readRetention env decimal (strip (strInt days)) = _
    rw [strip_strInt, readRetention, if_neg (strInt_ne days), readInt_str (h.retention days hdays)]
    rfl

theorem relayAllowHosts_join {hosts : List String} (h : ∀ s ∈ hosts, Item s ∧ env.lower s = s) :
    relayAllowHosts env (some (joinComma hosts)) = hosts := by
  rw [relayAllowHosts, csvSet_join (fun s hs => (h s hs).1)]
  calc hosts.map env.lower
      = hosts.map id := List.map_congr_left (fun s hs => (h s hs).2)
    _ = hosts := List.map_id _

/-- A normal form comes out of the variables written for it. -/
theorem getSettings_environ (hlower : LowerLaws env.lower) (h : c.Normal env) :
    getSettings env decimal c.environ = .ok c := by
  have hport : readInt env decimal (c.environ.getenv "APP_PORT" "8000") = .ok c.appPort := readInt_str h.port
  have hbody : readInt env decimal (c.environ.getenv "MAX_BODY_BYTES" "1048576") = .ok c.maxBodyBytes :=
    readInt_str h.body
  have hworkers : readInt env decimal (c.environ.getenv "RELAY_WORKER_CONCURRENCY" "8") =
      .ok c.relayWorkerConcurrency := readInt_str h.workerDigits
  have hqueue : readInt env decimal (c.environ.getenv "RELAY_QUEUE_SIZE" "1000") = .ok c.relayQueueSize :=
    readInt_str h.queueDigits
  have htarget : strip (c.environ.getenv "TARGET_URL" "") = c.targetUrl := h.targetUrl
  have hsources : csvSet (c.environ "ALLOWED_SOURCES") = c.allowedSources := csvSet_join h.sources
  have hhosts : relayAllowHosts env (c.environ "RELAY_ALLOW_HOSTS") = c.relayAllowHosts := relayAllowHosts_join h.hosts
  simp only [getSettings, hport, hbody, envBool_environ hlower, hworkers, hqueue, readRetention_environ h, htarget,
    hsources, hhosts, max_eq_left h.workers, max_eq_left h.queue, bind, Except.bind, pure, Except.pure]
  rfl

end

/-- A target, one worker, and a queue of a negative size. -/
def sampleEnviron : Environ := fun name =>
  [("TARGET_URL", " http://hooks.test/in\n"), ("RELAY_WORKER_CONCURRENCY", "+1"), ("RELAY_QUEUE_SIZE", "-1_0")].lookup
    name

/-- The settings of the sample service. -/
def sampleConfig : Config where
  appHost := "0.0.0.0"
  appPort := 8000
  databaseUrl := "sqlite:///./data/app.db"
  targetUrl := "http://hooks.test/in"
  logLevel := "INFO"
  webhookSecret := ""
  maxBodyBytes := 1048576
  allowedSources := []
  relayAllowHosts := []
  relayAllowPrivateIps := false
  relayWorkerConcurrency := 1
  relayQueueSize := 1
  eventRetentionDays := none
  adminToken := ""

theorem sampleEnviron_read : getSettings sampleEnv (fun _ => none) sampleEnviron = .ok sampleConfig := by
  decide +kernel

theorem lowerLaws_sample : LowerLaws sampleEnv.lower := ⟨fun _ => rfl, fun _ h => h, rfl, rfl⟩

end WebhookRelay
