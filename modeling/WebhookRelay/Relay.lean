import WebhookRelay.Models

/-
  services/relay.py: `relay_event` and what `_relay_and_persist` does around
  it, as a machine that moves one job from suspension point to suspension
  point. A `Position` is where the coroutine stands, with the values of its
  local variables; an `Input` is what it is resumed with: the answer of the
  resolver, the clock and the connection of an attempt, the result of a POST.

  `advance` performs the code between two suspension points. Everything the
  surroundings see of it is its `Effect`.
-/
namespace WebhookRelay

open Py

/-- `RelayOutcome`, and the dictionary `to_dict` makes of it. -/
structure RelayOutcome where
  attempted : Bool
  success : Bool
  reason : Option String := none
  statusCode : Option Int := none
  attempts : Nat := 0
  lastError : Option String := none
  lastAttemptAt : Option Datetime := none
  deriving DecidableEq

/-- The JSON body of an outbound request. -/
structure RelayPayload where
  eventId : String
  source : String
  receivedAt : List Char
  payload : Json
  headers : List (String × String)

/-- The arguments a queued job closes over. -/
structure RelayJob where
  eventId : String
  relayPayload : RelayPayload
  targetUrl : String
  requestId : String
  relayAllowHosts : List String
  relayAllowPrivateIps : Bool

/-! ## Preflight -/

/-- `any(getattr(ip_obj, attr) for attr in _BLOCKED_IP_FLAGS)`. -/
def IpFlags.blocked (f : IpFlags) : Bool :=
  f.isPrivate || f.isLoopback || f.isLinkLocal || f.isReserved || f.isMulticast || f.isUnspecified

def isBlockedIp (env : Env) (ipText : String) : Except PyExc Bool :=
  match env.ipAddress ipText with
  | some f => .ok f.blocked
  | none => .error (.valueError "not an IPv4 or IPv6 address")

/-- The host of a target, as the preflight reads it. -/
def targetHost (env : Env) (hostname : Option String) : String := env.lower (hostname.getD "")

/-- `_preflight_target` up to the resolution: the skipped outcome, or the host
to resolve. -/
def preflightPolicy (env : Env) (job : RelayJob) : Except PyExc (RelayOutcome ⊕ String) :=
  match env.urlparse job.targetUrl with
  | .error exc => .error exc
  | .ok (scheme, hostname) =>
    let host := targetHost env hostname
    if env.lower scheme ≠ "http" ∧ env.lower scheme ≠ "https" then
      .ok (.inl { attempted := false, success := false, reason := some "unsupported_scheme" })
    else if host = "" then
      .ok (.inl { attempted := false, success := false, reason := some "invalid_target_url" })
    else if job.relayAllowHosts ≠ [] ∧ host ∉ job.relayAllowHosts then
      .ok (.inl { attempted := false, success := false, reason := some "host_not_allowed" })
    else .ok (.inr host)

/-- The loop over the resolved addresses, in the order the set yields them. -/
def screenIps (env : Env) (relayAllowPrivateIps : Bool) :
    List String → Except PyExc (Option RelayOutcome)
  | [] => .ok none
  | ip :: ips =>
    -- `and` short-circuits: with private addresses allowed none is looked at
    if relayAllowPrivateIps then screenIps env relayAllowPrivateIps ips
    else
      match isBlockedIp env ip with
      | .error exc => .error exc
      | .ok true => .ok (some { attempted := false, success := false, reason := some "blocked_ip" })
      | .ok false => screenIps env relayAllowPrivateIps ips

/-! ## The job -/

/-- How a resolution ends. -/
inductive DnsAnswer where
  | addresses (ips : List String)
  | gaierror (text : String)
  | raised (exc : PyExc)
  deriving DecidableEq

/-- How `client.post` ends. -/
inductive PostResult where
  | response (statusCode : Int)
  | timeoutException (text : String)
  | connectError (text : String)
  | httpError (text : String)
  | raised (exc : PyExc)
  deriving DecidableEq

/-- The response is a 2xx. -/
def PostResult.ok : PostResult → Bool
  | .response statusCode => 200 ≤ statusCode && statusCode < 300
  | _ => false

/-- The variables the attempt loop carries from one pass to the next. -/
structure LoopVars where
  lastStatus : Option Int := none
  lastError : Option String := none
  reason : String := "non_2xx"
  lastAttemptAt : Option Datetime := none
  deriving DecidableEq

/-- Where a job stands. -/
inductive Position where
  | start
  | resolving
  | attempt (n : Nat) (vars : LoopVars)
  | inFlight (n : Nat) (vars : LoopVars)
  | persist (out : RelayOutcome)
  | returned
  | raised (exc : PyExc)
  deriving DecidableEq

/-- What a job is resumed with. `dns` is the client's own resolution of the
host for this attempt, `peer` the address it connected to, if it did. -/
inductive Input where
  | call
  | resolved (ans : DnsAnswer)
  | post (now : Moment) (dns : List String) (peer : Option String)
  | answered (res : PostResult)
  | persist

/-- An outbound request. -/
structure Post where
  url : String
  json : RelayPayload
  xRequestId : String
  peer : Option String

/-- What the surroundings see of a job. -/
inductive Effect where
  | taken
  | called
  | resolved (ans : DnsAnswer)
  | posted (post : Post)
  | answered (res : PostResult)
  | recorded (out : RelayOutcome)
  | finished
  | dropped

def maxAttempts : Nat := 4

/-- The client connects to an address of its own resolution, or to the host
itself when that is an address. -/
def peerAllowed (env : Env) (url : String) (dns : List String) : Option String → Bool
  | none => true
  | some ip =>
    match env.urlparse url with
    | .error _ => false
    | .ok (_, hostname) =>
      if (env.ipAddress (targetHost env hostname)).isSome then ip = targetHost env hostname
      else dns.contains ip

/-- The rest of the preflight, once the addresses are known, and the fetch of
the client. -/
def afterResolution (env : Env) (client : Bool) (job : RelayJob) (ips : List String) : Position :=
  match screenIps env job.relayAllowPrivateIps ips with
  | .error exc => .raised exc
  | .ok (some out) => .persist out
  | .ok none =>
    if client then .attempt 1 {} else .raised (.runtimeError "Relay HTTP client not initialized")

/-- A pass of the loop that did not succeed: the next one, or the end. -/
def afterFailure (n : Nat) (vars : LoopVars) : Position :=
  if n < maxAttempts then .attempt (n + 1) vars
  else .persist {
    attempted := true
    success := false
    reason := some vars.reason
    statusCode := vars.lastStatus
    attempts := maxAttempts
    lastError := vars.lastError
    lastAttemptAt := vars.lastAttemptAt }

def textOr (text default : String) : String := if text = "" then default else text

/-- What a pass of the loop makes of the result of its POST. -/
def afterPost (n : Nat) (vars : LoopVars) : PostResult → Position
  | .response statusCode =>
    if 200 ≤ statusCode ∧ statusCode < 300 then .persist {
      attempted := true
      success := true
      reason := some "success"
      statusCode := some statusCode
      attempts := n
      lastAttemptAt := vars.lastAttemptAt }
    else afterFailure n { vars with
      lastStatus := some statusCode
      reason := "non_2xx"
      lastError := some s!"non-2xx response: {statusCode}" }
  | .timeoutException text =>
    afterFailure n { vars with reason := "timeout", lastError := some (textOr text "timeout") }
  | .connectError text =>
    afterFailure n { vars with
      reason := "connection_error"
      lastError := some (textOr text "connection error") }
  | .httpError text => afterFailure n { vars with reason := "http_error", lastError := some text }
  | .raised exc => .raised exc

/-- The code of a job from one suspension point to the next; `none` is an
input the job does not wait for. -/
def advance (env : Env) (client : Bool) (job : RelayJob) : Position → Input → Option (Position × Effect)
  | .start, .call =>
    match preflightPolicy env job with
    -- outside the `try` of `_preflight_target`
    | .error exc => some (.raised exc, .called)
    | .ok (.inl out) => some (.persist out, .called)
    | .ok (.inr host) =>
      -- an address is returned as it is, without a resolver
      if (env.ipAddress host).isSome then some (afterResolution env client job [host], .called)
      else some (.resolving, .called)
  | .resolving, .resolved ans =>
    match ans with
    | .addresses ips => some (afterResolution env client job ips, .resolved ans)
    | .gaierror text =>
      some (.persist {
        attempted := false
        success := false
        reason := some "dns_error"
        lastError := some text }, .resolved ans)
    | .raised exc => some (.raised exc, .resolved ans)
  -- the `sleep` between two attempts is the wait for this input
  | .attempt n vars, .post now dns peer =>
    if peerAllowed env job.targetUrl dns peer then
      some (.inFlight n { vars with lastAttemptAt := some (.ofUtc now) },
        .posted ⟨job.targetUrl, job.relayPayload, job.requestId, peer⟩)
    else none
  | .inFlight n vars, .answered res => some (afterPost n vars res, .answered res)
  -- the transaction of `_relay_and_persist` after `relay_event` has returned
  | .persist out, .persist => some (.returned, .recorded out)
  | _, _ => none

/-! ## What a job can do -/

/-- The steps of a job, each with what it was resumed with and where it goes. -/
inductive Turn (env : Env) (client : Bool) (job : RelayJob) :
    Position → Input → Position → Effect → Prop where
  | unparsed {exc : PyExc} (h : preflightPolicy env job = .error exc) :
      Turn env client job .start .call (.raised exc) .called
  | skipped {out : RelayOutcome} (h : preflightPolicy env job = .ok (.inl out)) :
      Turn env client job .start .call (.persist out) .called
  | literal {host : String} (h : preflightPolicy env job = .ok (.inr host))
      (hl : (env.ipAddress host).isSome = true) :
      Turn env client job .start .call (afterResolution env client job [host]) .called
  | named {host : String} (h : preflightPolicy env job = .ok (.inr host))
      (hl : ¬ (env.ipAddress host).isSome = true) : Turn env client job .start .call .resolving .called
  | resolved {ips : List String} :
      Turn env client job .resolving (.resolved (.addresses ips)) (afterResolution env client job ips)
        (.resolved (.addresses ips))
  | gaierror {text : String} :
      Turn env client job .resolving (.resolved (.gaierror text))
        (.persist {
          attempted := false
          success := false
          reason := some "dns_error"
          lastError := some text })
        (.resolved (.gaierror text))
  | unresolved {exc : PyExc} :
      Turn env client job .resolving (.resolved (.raised exc)) (.raised exc) (.resolved (.raised exc))
  | posted {n : Nat} {vars : LoopVars} {now : Moment} {dns : List String} {peer : Option String}
      (h : peerAllowed env job.targetUrl dns peer = true) :
      Turn env client job (.attempt n vars) (.post now dns peer)
        (.inFlight n { vars with lastAttemptAt := some (.ofUtc now) })
        (.posted ⟨job.targetUrl, job.relayPayload, job.requestId, peer⟩)
  | answered {n : Nat} {vars : LoopVars} {res : PostResult} :
      Turn env client job (.inFlight n vars) (.answered res) (afterPost n vars res) (.answered res)
  | recorded {out : RelayOutcome} :
      Turn env client job (.persist out) .persist .returned (.recorded out)

section

variable {env : Env} {client : Bool} {job : RelayJob} {pos pos' : Position} {input : Input}
  {eff : Effect}

theorem Turn.of_advance (h : advance env client job pos input = some (pos', eff)) :
    Turn env client job pos input pos' eff := by
  unfold advance at h
  split at h
  · split at h
    · next hp =>
      cases h
      exact .unparsed hp
    · next hp =>
      cases h
      exact .skipped hp
    · next host hp =>
      split at h
      · next hl =>
        cases h
        exact .literal hp hl
      · next hl =>
        cases h
        exact .named hp hl
  · split at h <;> cases h
    · exact .resolved
    · exact .gaierror
    · exact .unresolved
  · split at h
    · next hp =>
      cases h
      exact .posted hp
    · cases h
  · cases h
    exact .answered
  · cases h
    exact .recorded
  · cases h

/-- After the resolution a job has raised, is about to record a skip, or is
before its first attempt with a client. -/
theorem afterResolution_cases (env : Env) (client : Bool) (job : RelayJob) (ips : List String) :
    (∃ exc, screenIps env job.relayAllowPrivateIps ips = .error exc ∧
        afterResolution env client job ips = .raised exc) ∨
      (∃ out, screenIps env job.relayAllowPrivateIps ips = .ok (some out) ∧
        afterResolution env client job ips = .persist out) ∨
      (client = false ∧ ∃ exc, afterResolution env client job ips = .raised exc) ∨
      (screenIps env job.relayAllowPrivateIps ips = .ok none ∧
        afterResolution env client job ips = .attempt 1 {}) := by
  unfold afterResolution
  split
  · next exc h => exact .inl ⟨exc, h, rfl⟩
  · next out h => exact .inr (.inl ⟨out, h, rfl⟩)
  · next h =>
    cases client with
    | true => exact .inr (.inr (.inr ⟨h, rfl⟩))
    | false => exact .inr (.inr (.inl ⟨rfl, _, rfl⟩))

/-- After a POST a job has raised, is before its next attempt, or is about to
record an attempt. Only a response that is not 2xx leads to another attempt. -/
theorem afterPost_cases (n : Nat) (vars : LoopVars) (res : PostResult) :
    (∃ exc, res = .raised exc ∧ afterPost n vars res = .raised exc) ∨
      (res.ok = false ∧ n < maxAttempts ∧ ∃ vars', afterPost n vars res = .attempt (n + 1) vars') ∨
      ∃ out, out.attempted = true ∧ afterPost n vars res = .persist out := by
  -- how a failed pass ends depends only on its number
  have hfail : ∀ vars', (n < maxAttempts ∧ afterFailure n vars' = .attempt (n + 1) vars') ∨
      ∃ out, out.attempted = true ∧ afterFailure n vars' = .persist out := by
    intro vars'
    unfold afterFailure
    split
    · next h => exact .inl ⟨h, rfl⟩
    · exact .inr ⟨_, rfl, rfl⟩
  have hnext : ∀ vars', res.ok = false → afterPost n vars res = afterFailure n vars' →
      (res.ok = false ∧ n < maxAttempts ∧ ∃ vars', afterPost n vars res = .attempt (n + 1) vars') ∨
        ∃ out, out.attempted = true ∧ afterPost n vars res = .persist out := by
    intro vars' hok heq
    rw [heq]
    rcases hfail vars' with ⟨hn, h⟩ | h
    · exact .inl ⟨hok, hn, vars', h⟩
    · exact .inr h
  cases res with
  | response statusCode =>
    by_cases h : 200 ≤ statusCode ∧ statusCode < 300
    · exact .inr (.inr ⟨_, rfl, if_pos h⟩)
    · refine .inr (hnext _ ?_ (if_neg h))
      simpa [PostResult.ok] using h
  | timeoutException _ => exact .inr (hnext _ rfl rfl)
  | connectError _ => exact .inr (hnext _ rfl rfl)
  | httpError _ => exact .inr (hnext _ rfl rfl)
  | raised exc => exact .inl ⟨exc, rfl, rfl⟩

end

end WebhookRelay
