import Mathlib.Data.Finset.Insert
import WebhookRelay.Connections
import WebhookRelay.Draining

/-
  The preflight policy of services/relay.py, under the allowlist core/config.py
  makes of RELAY_ALLOW_HOSTS. A `Target` is what the policy looks at; `Permitted`
  is the policy, and `Refusal` the outcome for the first of its conditions that
  fails.

  What is proved:
    1. `listed_iff`: the check of the parsed allowlist, read off the raw text;
    2. `refused_or_permitted`: a target is refused for one reason, or permitted;
    3. `preflight_policy`: every call of `relay_event` comes to its end; it has
       then sent a POST exactly if the target is permitted, and returns the
       refusal of one that is not, however the set of addresses is iterated.
-/
namespace WebhookRelay

open Py Transition

/-! ## The allowlist -/

/-- `value.split(",")`. -/
def splitComma (value : String) : List String := (value.toList.splitOn ',').map String.ofList

/-- `_csv_set`, its items in the order of the text. -/
def csvSet : Option String → List String
  | none => []
  | some value =>
    if value = "" then [] else ((splitComma value).filter (fun item => strip item ≠ "")).map strip

/-- `relay_allow_hosts`, as `get_settings` normalizes it. -/
def relayAllowHosts (env : Env) (raw : Option String) : List String := (csvSet raw).map env.lower

/-- The allowlist of a raw setting lets a host through: it has no items, or one
that is the host, once trimmed and lowercased. -/
def Listed (env : Env) (raw : Option String) (host : String) : Prop :=
  (∀ item ∈ splitComma (raw.getD ""), strip item = "") ∨
    ∃ item ∈ splitComma (raw.getD ""), strip item ≠ "" ∧ env.lower (strip item) = host

theorem mem_csvSet {raw : Option String} {host : String} :
    host ∈ csvSet raw ↔ ∃ item ∈ splitComma (raw.getD ""), strip item ≠ "" ∧ strip item = host := by
  -- an unset and an empty variable have one item, which is empty
  have hempty : ¬ ∃ item ∈ splitComma "", strip item ≠ "" ∧ strip item = host := by
    intro h
    obtain ⟨item, hitem, hne, -⟩ := h
    rw [show splitComma "" = [""] by decide +kernel, List.mem_singleton] at hitem
    subst hitem
    exact hne (by decide)
  cases raw with
  | none => exact ⟨fun h => (by cases h), fun h => absurd h hempty⟩
  | some value =>
    by_cases hv : value = ""
    · subst hv
      exact ⟨fun h => (by cases h), fun h => absurd h hempty⟩
    · simp only [csvSet, if_neg hv, List.mem_map, List.mem_filter, decide_eq_true_eq, Option.getD_some, and_assoc]

theorem listed_iff (env : Env) (raw : Option String) (host : String) :
    Listed env raw host ↔ ¬ (relayAllowHosts env raw ≠ [] ∧ host ∉ relayAllowHosts env raw) := by
  have hnil : relayAllowHosts env raw = [] ↔ ∀ item ∈ splitComma (raw.getD ""), strip item = "" := by
    rw [relayAllowHosts, List.map_eq_nil_iff, List.eq_nil_iff_forall_not_mem]
    simp only [mem_csvSet]
    constructor
    · intro h item hitem
      by_contra hne
      exact h (strip item) ⟨item, hitem, hne, rfl⟩
    · intro h host' h'
      obtain ⟨item, hitem, hne, -⟩ := h'
      exact hne (h item hitem)
  have hmem : host ∈ relayAllowHosts env raw ↔
      ∃ item ∈ splitComma (raw.getD ""), strip item ≠ "" ∧ env.lower (strip item) = host := by
    simp only [relayAllowHosts, List.mem_map, mem_csvSet]
    constructor
    · intro h
      obtain ⟨_, ⟨item, hitem, hne, rfl⟩, hhost⟩ := h
      exact ⟨item, hitem, hne, hhost⟩
    · intro h
      obtain ⟨item, hitem, hne, hhost⟩ := h
      exact ⟨strip item, ⟨item, hitem, hne, rfl⟩, hhost⟩
  rw [Listed, ← hnil, ← hmem, not_and_or, not_not, not_not]

example : csvSet (some " a.test,, B.test ") = ["a.test", "B.test"] := by decide +kernel

/-! ## The policy -/

/-- How the resolver answers for a name. -/
inductive Lookup where
  | addresses (ips : Finset String)
  | gaierror (text : String)

/-- The answer as the loop meets it: the set, iterated in some order. -/
inductive Lookup.Iterated : Lookup → DnsAnswer → Prop where
  | addresses {ips : Finset String} {l : List String} (h : ∀ ip, ip ∈ l ↔ ip ∈ ips) :
      Iterated (.addresses ips) (.addresses l)
  | gaierror {text : String} : Iterated (.gaierror text) (.gaierror text)

theorem Lookup.Iterated.addresses_inv {lookup : Lookup} {l : List String} (h : lookup.Iterated (.addresses l)) :
    ∃ ips, lookup = .addresses ips ∧ ∀ ip, ip ∈ l ↔ ip ∈ ips := by
  cases h with
  | addresses hl => exact ⟨_, rfl, hl⟩

theorem Lookup.Iterated.gaierror_inv {lookup : Lookup} {text : String} (h : lookup.Iterated (.gaierror text)) :
    lookup = .gaierror text := by
  cases h with
  | gaierror => rfl

theorem Lookup.Iterated.not_raised {lookup : Lookup} {exc : PyExc} : ¬ lookup.Iterated (.raised exc) := by
  intro h
  cases h

/-- The resolver only answers with addresses. -/
def Lookup.Valid (env : Env) : Lookup → Prop
  | .addresses ips => ∀ ip ∈ ips, (env.ipAddress ip).isSome = true
  | .gaierror _ => True

/-- What the policy looks at: scheme and host of the URL, the two settings, and
what the resolver answers for the host. -/
structure Target where
  scheme : String
  host : String
  allowHosts : Option String
  allowPrivateIps : Bool
  lookup : Lookup

namespace Target

/-- `_resolve_ips_for_host`: only a name is looked up. -/
def resolution (env : Env) (t : Target) : Lookup :=
  if (env.ipAddress t.host).isSome then .addresses {t.host} else t.lookup

/-- The first three conditions, on the URL alone. -/
structure Admissible (env : Env) (t : Target) : Prop where
  scheme : env.lower t.scheme = "http" ∨ env.lower t.scheme = "https"
  host : t.host ≠ ""
  listed : Listed env t.allowHosts t.host

structure Permitted (env : Env) (t : Target) : Prop extends t.Admissible env where
  resolved : ∀ text, t.resolution env ≠ .gaierror text
  unblocked : t.allowPrivateIps = true ∨
    ∀ ips, t.resolution env = .addresses ips → ∀ ip ∈ ips, isBlockedIp env ip ≠ .ok true

def skipped (reason : String) (lastError : Option String) : RelayOutcome where
  attempted := false
  success := false
  reason := some reason
  lastError := lastError

/-- The outcome for the first condition that fails. -/
inductive Refusal (env : Env) (t : Target) : RelayOutcome → Prop where
  | unsupportedScheme (hs : ¬ (env.lower t.scheme = "http" ∨ env.lower t.scheme = "https")) :
      Refusal env t (skipped "unsupported_scheme" none)
  | invalidTargetUrl (hs : env.lower t.scheme = "http" ∨ env.lower t.scheme = "https") (hh : t.host = "") :
      Refusal env t (skipped "invalid_target_url" none)
  | hostNotAllowed (hs : env.lower t.scheme = "http" ∨ env.lower t.scheme = "https") (hh : t.host ≠ "")
      (hl : ¬ Listed env t.allowHosts t.host) : Refusal env t (skipped "host_not_allowed" none)
  | dnsError {text : String} (ha : t.Admissible env) (hr : t.resolution env = .gaierror text) :
      Refusal env t (skipped "dns_error" (some text))
  | blockedIp {ips : Finset String} {ip : String} (ha : t.Admissible env)
      (hr : t.resolution env = .addresses ips) (hp : t.allowPrivateIps = false) (hip : ip ∈ ips)
      (hb : isBlockedIp env ip = .ok true) : Refusal env t (skipped "blocked_ip" none)

/-- The job is aimed at the target. -/
structure Aims (env : Env) (job : RelayJob) (t : Target) : Prop where
  parsed : ∃ hostname, env.urlparse job.targetUrl = .ok (t.scheme, hostname) ∧ t.host = targetHost env hostname
  allowHosts : job.relayAllowHosts = relayAllowHosts env t.allowHosts
  allowPrivateIps : job.relayAllowPrivateIps = t.allowPrivateIps

section

variable {env : Env} {t : Target} {job : RelayJob} {out : RelayOutcome}

theorem Refusal.not_permitted (h : t.Refusal env out) : ¬ t.Permitted env := by
  intro hp
  cases h with
  | unsupportedScheme hs => exact hs hp.scheme
  | invalidTargetUrl _ hh => exact hp.host hh
  | hostNotAllowed _ _ hl => exact hl hp.listed
  | dnsError _ hr => exact hp.resolved _ hr
  | blockedIp _ hr hpriv hip hb =>
    rcases hp.unblocked with hallow | hall
    · rw [hpriv] at hallow
      cases hallow
    · exact hall _ hr _ hip hb

/-- Each refusal is a relay that was not attempted, for a reason of its own. -/
theorem Refusal.skipped (h : t.Refusal env out) :
    out.attempted = false ∧ out.success = false ∧ out.attempts = 0 ∧ out.statusCode = none ∧
      out.lastAttemptAt = none := by
  cases h <;> exact ⟨rfl, rfl, rfl, rfl, rfl⟩

/-- A target is refused for one reason. -/
theorem Refusal.unique {out' : RelayOutcome} (h : t.Refusal env out) (h' : t.Refusal env out') :
    out = out' := by
  cases h with
  | unsupportedScheme hs =>
    cases h' with
    | unsupportedScheme _ => rfl
    | invalidTargetUrl hs' _ | hostNotAllowed hs' _ _ => exact absurd hs' hs
    | dnsError ha _ | blockedIp ha _ _ _ _ => exact absurd ha.scheme hs
  | invalidTargetUrl hs hh =>
    cases h' with
    | unsupportedScheme hs' => exact absurd hs hs'
    | invalidTargetUrl _ _ => rfl
    | hostNotAllowed _ hh' _ => exact absurd hh hh'
    | dnsError ha _ | blockedIp ha _ _ _ _ => exact absurd hh ha.host
  | hostNotAllowed hs hh hl =>
    cases h' with
    | unsupportedScheme hs' => exact absurd hs hs'
    | invalidTargetUrl _ hh' => exact absurd hh' hh
    | hostNotAllowed _ _ _ => rfl
    | dnsError ha _ | blockedIp ha _ _ _ _ => exact absurd ha.listed hl
  | dnsError ha hr =>
    cases h' with
    | unsupportedScheme hs' => exact absurd ha.scheme hs'
    | invalidTargetUrl _ hh' => exact absurd hh' ha.host
    | hostNotAllowed _ _ hl' => exact absurd ha.listed hl'
    | dnsError _ hr' =>
      rw [hr] at hr'
      cases hr'
      rfl
    | blockedIp _ hr' _ _ _ =>
      rw [hr] at hr'
      cases hr'
  | blockedIp ha hr hp hip hb =>
    cases h' with
    | unsupportedScheme hs' => exact absurd ha.scheme hs'
    | invalidTargetUrl _ hh' => exact absurd hh' ha.host
    | hostNotAllowed _ _ hl' => exact absurd ha.listed hl'
    | dnsError _ hr' =>
      rw [hr] at hr'
      cases hr'
    | blockedIp _ _ _ _ _ => rfl

/-! ### The checks of the code -/

/-- The code up to the resolution refuses a target that is not admissible. -/
theorem Aims.preflightPolicy (h : t.Aims env job) :
    (∃ out, preflightPolicy env job = .ok (.inl out) ∧ t.Refusal env out) ∨
      (preflightPolicy env job = .ok (.inr t.host) ∧ t.Admissible env) := by
  obtain ⟨hostname, hparse, hhost⟩ := h.parsed
  unfold WebhookRelay.preflightPolicy
  rw [hparse]
  simp only [← hhost, h.allowHosts]
  by_cases hs : env.lower t.scheme = "http" ∨ env.lower t.scheme = "https"
  · rw [if_neg (by rw [← not_or, not_not]; exact hs)]
    by_cases hh : t.host = ""
    · rw [if_pos hh]
      exact .inl ⟨_, rfl, .invalidTargetUrl hs hh⟩
    · rw [if_neg hh]
      by_cases hl : Listed env t.allowHosts t.host
      · rw [if_neg ((listed_iff ..).mp hl)]
        exact .inr ⟨rfl, hs, hh, hl⟩
      · rw [if_pos (not_not.mp (mt (listed_iff ..).mpr hl))]
        exact .inl ⟨_, rfl, .hostNotAllowed hs hh hl⟩
  · rw [if_pos (not_or.mp hs)]
    exact .inl ⟨_, rfl, .unsupportedScheme hs⟩

/-- The loop over valid addresses looks for a blocked one, in any order. -/
theorem screenIps_valid (allow : Bool) : ∀ {l : List String}, (∀ ip ∈ l, (env.ipAddress ip).isSome = true) →
    ((allow = true ∨ ∀ ip ∈ l, isBlockedIp env ip ≠ .ok true) ∧ screenIps env allow l = .ok none) ∨
      (allow = false ∧ (∃ ip ∈ l, isBlockedIp env ip = .ok true) ∧
        screenIps env allow l = .ok (some (skipped "blocked_ip" none)))
  | [], _ => .inl ⟨.inr (fun _ hip => by cases hip), rfl⟩
  | ip :: l, hvalid => by
    have hrest := screenIps_valid allow (fun ip' hip' => hvalid ip' (List.mem_cons_of_mem ip hip'))
    cases allow with
    | true =>
      refine .inl ⟨.inl rfl, ?_⟩
      rcases hrest with ⟨-, hs⟩ | ⟨hf, -⟩
      · rw [screenIps, if_pos rfl, hs]
      · cases hf
    | false =>
      obtain ⟨flags, hflags⟩ := Option.isSome_iff_exists.mp (hvalid ip List.mem_cons_self)
      have hblocked : isBlockedIp env ip = .ok flags.blocked := by rw [isBlockedIp, hflags]
      rw [screenIps, if_neg Bool.false_ne_true, hblocked]
      cases hb : flags.blocked with
      | true =>
        rw [hb] at hblocked
        exact .inr ⟨rfl, ⟨ip, List.mem_cons_self, hblocked⟩, rfl⟩
      | false =>
        rw [hb] at hblocked
        rcases hrest with ⟨hall, hs⟩ | ⟨-, hsome, hs⟩
        · refine .inl ⟨.inr ?_, hs⟩
          intro ip' hip'
          rcases List.mem_cons.mp hip' with rfl | hip'
          · rw [hblocked]
            simp
          · rcases hall with hf | hall
            · cases hf
            · exact hall ip' hip'
        · obtain ⟨ip', hip', hb'⟩ := hsome
          exact .inr ⟨rfl, ⟨ip', List.mem_cons_of_mem ip hip', hb'⟩, hs⟩

/-- The code after the resolution refuses, or the first attempt begins. -/
theorem Aims.afterResolution (h : t.Aims env job) (ha : t.Admissible env) {ips : Finset String} {l : List String}
    (hr : t.resolution env = .addresses ips) (hl : ∀ ip, ip ∈ l ↔ ip ∈ ips)
    (hvalid : ∀ ip ∈ ips, (env.ipAddress ip).isSome = true) :
    (t.Permitted env ∧ afterResolution env true job l = .attempt 1 {}) ∨
      ∃ out, t.Refusal env out ∧ afterResolution env true job l = .persist out := by
  have hscreen := screenIps_valid t.allowPrivateIps (fun ip hip => hvalid ip ((hl ip).mp hip))
  unfold WebhookRelay.afterResolution
  rw [h.allowPrivateIps]
  rcases hscreen with ⟨hopen, hs⟩ | ⟨hpriv, ⟨ip, hip, hb⟩, hs⟩
  · rw [hs]
    refine .inl ⟨⟨ha, fun text htext => ?_, hopen.imp_right fun hall ips' hips' ip hip => ?_⟩, rfl⟩
    · rw [hr] at htext
      cases htext
    · rw [hr] at hips'
      cases hips'
      exact hall ip ((hl ip).mpr hip)
  · rw [hs]
    exact .inr ⟨_, .blockedIp ha hr hpriv ((hl ip).mp hip) hb, rfl⟩

/-! ### The call -/

/-- A POST has been sent. -/
def Posted (effs : List Effect) : Prop := ∃ post, .posted post ∈ effs

/-- What the policy says of a job, at each position. -/
def Standing (env : Env) (t : Target) (effs : List Effect) : Position → Prop
  | .start => ¬ Posted effs
  | .resolving => ¬ Posted effs ∧ t.Admissible env ∧ t.resolution env = t.lookup
  | .attempt n _ => t.Permitted env ∧ (1 < n → Posted effs)
  | .inFlight _ _ | .raised _ => t.Permitted env ∧ Posted effs
  | .persist out => (t.Permitted env ∧ Posted effs) ∨ (t.Refusal env out ∧ ¬ Posted effs)
  | .returned => True

theorem posted_snoc {effs : List Effect} {eff : Effect} (h : Posted effs) : Posted (effs ++ [eff]) := by
  obtain ⟨post, hpost⟩ := h
  exact ⟨post, List.mem_append_left _ hpost⟩

theorem not_posted_snoc {effs : List Effect} {eff : Effect} (h : ¬ Posted effs) (he : ∀ post, eff ≠ .posted post) :
    ¬ Posted (effs ++ [eff]) := by
  intro h'
  obtain ⟨post, hpost⟩ := h'
  rcases List.mem_append.mp hpost with hpost | hpost
  · exact h ⟨post, hpost⟩
  · exact he post (List.mem_singleton.mp hpost).symm

/-- Each turn of a job keeps its standing. -/
theorem Standing.turn {effs : List Effect} {pos pos' : Position} {input : Input} {eff : Effect}
    (hs : Standing env t effs pos) (h : t.Aims env job) (hvalid : t.lookup.Valid env)
    (hans : ∀ ans, input = .resolved ans → t.lookup.Iterated ans)
    (ht : Turn env true job pos input pos' eff) : Standing env t (effs ++ [eff]) pos' := by
  -- where the resolution leads, when it was not a POST that came before
  have after : ∀ (ips : Finset String) {l : List String} {eff : Effect}, ¬ Posted effs →
      (∀ post, eff ≠ .posted post) → t.Admissible env → t.resolution env = .addresses ips →
      (∀ ip, ip ∈ l ↔ ip ∈ ips) → (∀ ip ∈ ips, (env.ipAddress ip).isSome = true) →
      Standing env t (effs ++ [eff]) (WebhookRelay.afterResolution env true job l) := by
    intro ips l eff hno he ha hr hl hips
    rcases h.afterResolution ha hr hl hips with ⟨hp, heq⟩ | ⟨out, hout, heq⟩
    · rw [heq]
      exact ⟨hp, fun hlt => absurd hlt (Nat.lt_irrefl 1)⟩
    · rw [heq]
      exact .inr ⟨hout, not_posted_snoc hno he⟩
  cases ht with
  | unparsed hp =>
    rcases h.preflightPolicy with ⟨out, heq, -⟩ | ⟨heq, -⟩ <;> rw [hp] at heq <;> cases heq
  | skipped hp =>
    rcases h.preflightPolicy with ⟨out, heq, hout⟩ | ⟨heq, -⟩ <;> rw [hp] at heq <;> cases heq
    exact .inr ⟨hout, not_posted_snoc hs (fun _ => Effect.noConfusion)⟩
  | literal hp hlit =>
    rcases h.preflightPolicy with ⟨out, heq, -⟩ | ⟨heq, ha⟩ <;> rw [hp] at heq <;> cases heq
    apply after {t.host} hs (fun _ => Effect.noConfusion) ha (if_pos hlit)
    · intro ip
      rw [List.mem_singleton, Finset.mem_singleton]
    · intro ip hip
      rw [Finset.mem_singleton.mp hip]
      exact hlit
  | named hp hname =>
    rcases h.preflightPolicy with ⟨out, heq, -⟩ | ⟨heq, ha⟩ <;> rw [hp] at heq <;> cases heq
    exact ⟨not_posted_snoc hs (fun _ => Effect.noConfusion), ha, if_neg hname⟩
  | resolved =>
    obtain ⟨hno, ha, hr⟩ := hs
    obtain ⟨ips, hlook, hl⟩ := (hans _ rfl).addresses_inv
    rw [hlook] at hr hvalid
    exact after ips hno (fun _ => Effect.noConfusion) ha hr hl hvalid
  | gaierror =>
    obtain ⟨hno, ha, hr⟩ := hs
    rw [(hans _ rfl).gaierror_inv] at hr
    exact .inr ⟨.dnsError ha hr, not_posted_snoc hno (fun _ => Effect.noConfusion)⟩
  | unresolved => exact absurd (hans _ rfl) Lookup.Iterated.not_raised
  | posted _ => exact ⟨hs.1, _, List.mem_append_right effs (List.mem_singleton_self _)⟩
  | @answered n vars res =>
    obtain ⟨hp, hpost⟩ := hs
    rcases afterPost_cases n vars res with ⟨_, -, heq⟩ | ⟨-, -, _, heq⟩ | ⟨_, -, heq⟩ <;> rw [heq]
    · exact ⟨hp, posted_snoc hpost⟩
    · exact ⟨hp, fun _ => posted_snoc hpost⟩
    · exact .inl ⟨hp, posted_snoc hpost⟩
  | recorded => trivial

theorem standing_run {inputs : List Input} {effs : List Effect} {pos : Position}
    (hr : Run (advance env true job) .start inputs effs pos) (h : t.Aims env job) (hvalid : t.lookup.Valid env)
    (hans : ∀ ans, .resolved ans ∈ inputs → t.lookup.Iterated ans) : Standing env t effs pos := by
  refine hr.history_of (C := fun input => ∀ ans, input = .resolved ans → t.lookup.Iterated ans)
    (I := fun pos effs => Standing env t effs pos) ?_ ?_ ?_
  · intro input hinput ans heq
    subst heq
    exact hans ans hinput
  · intro hp
    obtain ⟨post, hpost⟩ := hp
    cases hpost
  · intro pos effs pos' input eff hs hC hstep
    exact hs.turn h hvalid hC (Turn.of_advance hstep)

end

end Target

/-- `relay_event` has returned, or raised. -/
def Position.Over : Position → Prop
  | .persist _ | .raised _ => True
  | .start | .resolving | .attempt _ _ | .inFlight _ _ | .returned => False

/-- A finished call has sent a POST for a permitted target, or returned the
refusal of one that is not. -/
theorem Target.Standing.over {env : Env} {t : Target} {effs : List Effect} {pos : Position}
    (h : t.Standing env effs pos) (hover : pos.Over) :
    (t.Permitted env ∧ Target.Posted effs) ∨
      ∃ out, pos = .persist out ∧ t.Refusal env out ∧ ¬ Target.Posted effs := by
  cases pos with
  | persist out =>
    rcases h with h | ⟨hout, hno⟩
    · exact .inl h
    · exact .inr ⟨out, rfl, hout, hno⟩
  | raised exc => exact .inl h
  | start | resolving | attempt _ _ | inFlight _ _ | returned => exact hover.elim

/-! ## The end of a call -/

/-- A call of `relay_event` with the HTTP client, as far as it has come, with
answers the lookup can give. -/
structure Target.Call (env : Env) (job : RelayJob) (t : Target) (inputs : List Input) (effs : List Effect)
    (pos : Position) : Prop where
  run : Run (advance env true job) .start inputs effs pos
  answers : ∀ ans, .resolved ans ∈ inputs → t.lookup.Iterated ans

/-- What a call on the target may be resumed with, before its outcome is
recorded. -/
def Target.Resumes (t : Target) : Input → Prop
  | .resolved ans => t.lookup.Iterated ans
  | .persist => False
  | .call | .post _ _ _ | .answered _ => True

/-- The set of addresses can be iterated. -/
theorem Lookup.iterated_exists (lookup : Lookup) : ∃ ans, lookup.Iterated ans := by
  cases lookup with
  | addresses ips => exact ⟨.addresses ips.toList, .addresses (fun _ => Finset.mem_toList)⟩
  | gaierror text => exact ⟨.gaierror text, .gaierror⟩

/-- Every turn of a call is one of finitely many. -/
theorem advance_potential (env : Env) (client : Bool) (job : RelayJob) :
    Potential (advance env client job) (fun _ => True) Position.remaining (fun _ => 1) (fun _ => 0) where
  keeps := fun _ _ _ _ _ _ => trivial
  pays := fun _ _ _ _ _ h => (Turn.of_advance h).remaining_lt

theorem advance_working (env : Env) (client : Bool) (job : RelayJob) (C : Input → Prop) :
    Working (advance env client job) C (fun _ => 1) (fun _ => 0) :=
  fun _ _ _ _ _ _ => ⟨Nat.one_pos, rfl⟩

/-- A call that nothing resumes is over. -/
theorem Target.stuck_over {env : Env} {job : RelayJob} {t : Target} {pos : Position}
    (h : Stuck (advance env true job) t.Resumes pos) : pos.Over ∨ pos = .returned := by
  cases pos with
  | start =>
    have hcall := h .call trivial
    simp only [advance] at hcall
    split at hcall
    · cases hcall
    · cases hcall
    · split at hcall <;> cases hcall
  | resolving =>
    obtain ⟨ans, hans⟩ := t.lookup.iterated_exists
    have hresolved := h (.resolved ans) hans
    simp only [advance] at hresolved
    split at hresolved <;> cases hresolved
  | attempt n vars =>
    have hpost := h (.post ⟨0, by decide⟩ [] none) trivial
    simp only [advance, peerAllowed, if_true, reduceCtorEq] at hpost
  | inFlight n vars =>
    have hanswer := h (.answered (.response 200)) trivial
    simp only [advance, reduceCtorEq] at hanswer
  | persist _ | raised _ => exact .inl trivial
  | returned => exact .inr rfl

/-- A call goes on to its end. -/
theorem Target.Call.ends {env : Env} {job : RelayJob} {t : Target} {inputs : List Input} {effs : List Effect}
    {pos : Position} (h : t.Call env job inputs effs pos) (hpos : pos ≠ .returned) :
    ∃ more effs' pos', t.Call env job (inputs ++ more) (effs ++ effs') pos' ∧ pos'.Over := by
  obtain ⟨more, effs', pos', hrun, hmore, hstuck⟩ :=
    (advance_potential env true job).reaches_stuck (C := t.Resumes) (advance_working env true job _) (s := pos) trivial
  refine ⟨more, effs', pos', ⟨h.run.append hrun, ?_⟩, ?_⟩
  · intro ans hans
    rcases List.mem_append.mp hans with hans | hans
    · exact h.answers ans hans
    · exact hmore _ hans
  · -- the position after the outcome is recorded is reached by the recording only
    rcases Target.stuck_over hstuck with hover | rfl
    · exact hover
    · generalize hend : Position.returned = last at hrun
      cases hrun with
      | nil => exact absurd hend.symm hpos
      | snoc _ hs =>
        subst hend
        have hlast := hmore _ (List.mem_append_right _ (List.mem_singleton_self _))
        have hturn := Turn.of_advance hs
        generalize hto : Position.returned = pos' at hturn
        cases hturn with
        | recorded => exact hlast.elim
        | literal _ _ | resolved =>
          rcases afterResolution_cases env true job _ with ⟨_, -, he⟩ | ⟨_, -, he⟩ | ⟨-, _, he⟩ | ⟨-, he⟩ <;>
            rw [he] at hto <;> cases hto
        | answered =>
          rcases afterPost_cases _ _ _ with ⟨_, -, he⟩ | ⟨-, -, _, he⟩ | ⟨_, -, he⟩ <;> rw [he] at hto <;> cases hto
        | unparsed _ | skipped _ | named _ _ | gaierror | unresolved | posted _ => cases hto

/-- **Preflight policy.** A call of `relay_event` with the HTTP client, on a
target `urlparse` accepts and an answer of the resolver iterated in any order,
is resumed at most eleven times and goes on to its end. It has then sent a POST
if and only if the policy permits the target; otherwise it returns the outcome
for the first condition that fails, whatever the order was. -/
theorem preflight_policy {env : Env} {job : RelayJob} {t : Target} (haims : t.Aims env job)
    (hvalid : t.lookup.Valid env) :
    (∀ inputs effs pos, t.Call env job inputs effs pos → inputs.length ≤ 11 ∧
      (pos ≠ .returned → ∃ more effs' pos', t.Call env job (inputs ++ more) (effs ++ effs') pos' ∧ pos'.Over)) ∧
    ∀ inputs effs pos, t.Call env job inputs effs pos → pos.Over →
      ((∃ post, .posted post ∈ effs) ↔ t.Permitted env) ∧
      (¬ t.Permitted env → ∃ out, pos = .persist out ∧ out.attempted = false ∧ t.Refusal env out) ∧
      ∀ inputs' effs' pos', t.Call env job inputs' effs' pos' → pos'.Over →
        ((∃ post, .posted post ∈ effs) ↔ ∃ post, .posted post ∈ effs') ∧
          ((¬ ∃ post, .posted post ∈ effs) → pos = pos') := by
  have hiff : ∀ {inputs effs pos}, t.Call env job inputs effs pos → pos.Over →
      ((∃ post, .posted post ∈ effs) ↔ t.Permitted env) ∧
        (¬ t.Permitted env → ∃ out, pos = .persist out ∧ t.Refusal env out) := by
    intro inputs effs pos h hover
    rcases (Target.standing_run h.run haims hvalid h.answers).over hover with ⟨hp, hpost⟩ | ⟨out, hpos, hout, hno⟩
    · exact ⟨iff_of_true hpost hp, fun hnp => absurd hp hnp⟩
    · exact ⟨iff_of_false hno hout.not_permitted, fun _ => ⟨out, hpos, hout⟩⟩
  refine ⟨?_, ?_⟩
  · intro inputs effs pos h
    refine ⟨?_, h.ends⟩
    have hlen := (advance_potential env true job).length_le (C := fun _ => True) (advance_working env true job _)
      h.run trivial (fun _ _ => trivial)
    have hpos : 1 ≤ pos.remaining := by cases pos <;> simp only [Position.remaining] <;> omega
    have hstart : Position.start.remaining = 12 := rfl
    omega
  · intro inputs effs pos h hover
    obtain ⟨hsent, hrefused⟩ := hiff h hover
    refine ⟨hsent, ?_, ?_⟩
    · intro hnp
      obtain ⟨out, hpos, hout⟩ := hrefused hnp
      exact ⟨out, hpos, hout.skipped.1, hout⟩
    · intro inputs' effs' pos' h' hover'
      obtain ⟨hsent', hrefused'⟩ := hiff h' hover'
      refine ⟨hsent.trans hsent'.symm, ?_⟩
      intro hno
      have hnp : ¬ t.Permitted env := mt hsent.mpr hno
      obtain ⟨out, rfl, hout⟩ := hrefused hnp
      obtain ⟨out', rfl, hout'⟩ := hrefused' hnp
      rw [hout.unique hout']

/-- A listed name, and what it resolves to. -/
def sampleTarget (ips : Finset String) : Target where
  scheme := "http"
  host := "hooks.test"
  allowHosts := some " hooks.test, ,"
  allowPrivateIps := false
  lookup := .addresses ips

theorem sampleTarget_aims (ips : Finset String) : (sampleTarget ips).Aims sampleEnv sampleJob := by
  refine ⟨⟨some "hooks.test", ?_, rfl⟩, ?_, rfl⟩
  · simp only [sampleEnv, sampleJob, sampleTarget, if_true]
  · show ["hooks.test"] = relayAllowHosts sampleEnv (some " hooks.test, ,")
    decide +kernel

/-- A call that has been given addresses in the order of a list. -/
theorem sampleTarget_call {l : List String} {inputs : List Input} {effs : List Effect} {pos : Position}
    (h : exec (advance sampleEnv true sampleJob) .start (.call :: .resolved (.addresses l) :: inputs) =
      some (pos, effs)) (hinputs : ∀ ans, .resolved ans ∉ inputs) :
    (sampleTarget l.toFinset).Call sampleEnv sampleJob (.call :: .resolved (.addresses l) :: inputs) effs pos := by
  refine ⟨Run.of_exec h, ?_⟩
  intro ans hmem
  simp only [List.mem_cons, reduceCtorEq, false_or, Input.resolved.injEq, hinputs, or_false] at hmem
  subst hmem
  exact .addresses (fun _ => List.mem_toFinset.symm)

/-- A name with a public address is relayed to. One that resolves to a loopback
address too is refused, also when the public address comes first. -/
theorem preflight_policy_sample :
    (∃ effs out, exec (advance sampleEnv true sampleJob) .start
        (attemptInputs ["93.184.216.34"] "93.184.216.34" ++ [.answered (.response 200)]) = some (.persist out, effs) ∧
      out.success = true ∧ (sampleTarget {"93.184.216.34"}).Permitted sampleEnv ∧ ∃ post, .posted post ∈ effs) ∧
    ∃ effs out, exec (advance sampleEnv true sampleJob) .start
        [.call, .resolved (.addresses ["93.184.216.34", "127.0.0.1"])] = some (.persist out, effs) ∧
      out.reason = some "blocked_ip" ∧ (sampleTarget {"93.184.216.34", "127.0.0.1"}).Refusal sampleEnv out ∧
      ¬ ∃ post, .posted post ∈ effs := by
  have hclean : isBlockedIp sampleEnv "93.184.216.34" = .ok false := by decide +kernel
  have hblocked : isBlockedIp sampleEnv "127.0.0.1" = .ok true := by decide +kernel
  have hvalid : ∀ l : List String, (∀ ip ∈ l, (sampleEnv.ipAddress ip).isSome = true) →
      (sampleTarget l.toFinset).lookup.Valid sampleEnv :=
    fun l hl ip hip => hl ip (List.mem_toFinset.mp hip)
  refine ⟨?_, ?_⟩
  · have hrun : ((exec (advance sampleEnv true sampleJob) .start
        (attemptInputs ["93.184.216.34"] "93.184.216.34" ++ [.answered (.response 200)])).map
          (fun r => match r.1 with | .persist out => out.success | _ => false)) = some true := by
      decide +kernel
    obtain ⟨⟨pos, effs⟩, h, hpos⟩ := Option.map_eq_some_iff.mp hrun
    cases pos with
    | persist out =>
      have hpermitted : (sampleTarget {"93.184.216.34"}).Permitted sampleEnv := by
        refine ⟨⟨.inl rfl, by decide, (listed_iff ..).mpr (by decide +kernel)⟩, ?_, .inr ?_⟩
        · intro text htext
          cases htext
        · intro ips hips ip hip
          cases hips
          rw [Finset.mem_singleton.mp hip, hclean]
          simp
      have hno : ∀ ans, Input.resolved ans ∉
          [.post (sampleDraws 1 40).now ["93.184.216.34"] (some "93.184.216.34"), .answered (.response 200)] := by
        intro ans hmem
        simp only [List.mem_cons, List.not_mem_nil, reduceCtorEq, or_self] at hmem
      have hcall := sampleTarget_call h hno
      have hpolicy := preflight_policy (sampleTarget_aims _) (hvalid ["93.184.216.34"] (by decide))
      exact ⟨effs, out, h, hpos, hpermitted, (hpolicy.2 _ _ _ hcall trivial).1.mpr hpermitted⟩
    | start | resolving | attempt _ _ | inFlight _ _ | returned | raised _ => cases hpos
  · have hrun : (exec (advance sampleEnv true sampleJob) .start
        [.call, .resolved (.addresses ["93.184.216.34", "127.0.0.1"])]).map Prod.fst =
          some (.persist (Target.skipped "blocked_ip" none)) := by
      decide +kernel
    obtain ⟨⟨pos, effs⟩, h, hpos⟩ := Option.map_eq_some_iff.mp hrun
    obtain rfl : pos = _ := hpos
    have hnot : ¬ (sampleTarget {"93.184.216.34", "127.0.0.1"}).Permitted sampleEnv := by
      intro hp
      rcases hp.unblocked with hallow | hall
      · cases hallow
      · exact hall _ rfl "127.0.0.1" (by simp) hblocked
    have hcall := sampleTarget_call h (by
      intro ans hmem
      cases hmem)
    have hpolicy := preflight_policy (sampleTarget_aims _) (hvalid ["93.184.216.34", "127.0.0.1"] (by decide))
    obtain ⟨hsent, hrefused, -⟩ := hpolicy.2 _ _ _ hcall trivial
    obtain ⟨out, hout, -, hrefusal⟩ := hrefused hnot
    cases hout
    exact ⟨effs, _, h, rfl, hrefusal, mt hsent.mp hnot⟩

end WebhookRelay
