import WebhookRelay.Jobs
import WebhookRelay.Intake

/-
  Which addresses a job connects to. The preflight screens the addresses of its
  own resolution, once; each attempt of the client resolves the name again.
  `Clear` is what the preflight has established when the first attempt begins:
  the host is an address that is not blocked, or a name that was resolved
  without a blocked address. It holds for the rest of the job (`screened_run`).
  An attempt is covered by it when the host is an address, or when its
  resolution brings nothing the preflight has not seen (`connections_screened`).
-/
namespace WebhookRelay

open Py Transition

section

variable {env : Env} {client : Bool} {job : RelayJob} {pos pos' : Position} {input : Input} {eff : Effect}
  {inputs : List Input} {effs : List Effect}

/-- A screen that finds nothing has looked at every address. -/
theorem screenIps_none : ∀ {ips : List String}, screenIps env false ips = .ok none →
    ∀ ip ∈ ips, isBlockedIp env ip = .ok false
  | [], _, ip, hip => by cases hip
  | ip :: ips, h, ip', hip' => by
    simp only [screenIps, Bool.false_eq_true, if_false] at h
    split at h
    · cases h
    · cases h
    · next hfree =>
      rcases List.mem_cons.mp hip' with rfl | hip'
      · exact hfree
      · exact screenIps_none h ip' hip'

/-- The host the preflight resolves is the target's. -/
theorem preflightPolicy_host {host : String} (h : preflightPolicy env job = .ok (.inr host)) :
    ∃ scheme hostname, env.urlparse job.targetUrl = .ok (scheme, hostname) ∧
      host = targetHost env hostname := by
  unfold preflightPolicy at h
  split at h
  · cases h
  · next scheme hostname hparse =>
    refine ⟨scheme, hostname, hparse, ?_⟩
    simp only at h
    split at h
    · cases h
    · split at h
      · cases h
      · split at h
        · cases h
        · cases h
          rfl

/-- What the preflight has established, once it has been called: the host it
resolved, which is an address that is not blocked, or a name it has asked the
resolver for; and answers without a blocked address. -/
def Clear (env : Env) (job : RelayJob) (inputs : List Input) : Prop :=
  .call ∈ inputs ∧
  (∃ host, preflightPolicy env job = .ok (.inr host) ∧
    if (env.ipAddress host).isSome then isBlockedIp env host = .ok false
    else ∃ ips, .resolved (.addresses ips) ∈ inputs) ∧
  ∀ ips, .resolved (.addresses ips) ∈ inputs → ∀ ip ∈ ips, isBlockedIp env ip = .ok false

/-- An input that is no answer of the resolver leaves the preflight's results as
they were. -/
theorem Clear.snoc (h : Clear env job inputs) (hr : ∀ ans, input ≠ .resolved ans) :
    Clear env job (inputs ++ [input]) := by
  obtain ⟨hcall, ⟨host, hpolicy, hhost⟩, hips⟩ := h
  refine ⟨List.mem_append_left _ hcall, ⟨host, hpolicy, ?_⟩, ?_⟩
  · split
    · next hlit => rwa [if_pos hlit] at hhost
    · next hname =>
      rw [if_neg hname] at hhost
      exact hhost.imp (fun _ hmem => List.mem_append_left _ hmem)
  · intro ips hmem
    rcases List.mem_append.mp hmem with hmem | hmem
    · exact hips ips hmem
    · exact absurd (List.mem_singleton.mp hmem).symm (hr _)

/-- A job that is past its preflight and may connect. -/
def Position.Trying : Position → Prop
  | .attempt _ _ | .inFlight _ _ => True
  | .start | .resolving | .persist _ | .returned | .raised _ => False

/-- The preflight comes first, and the attempts come after a clear one. -/
structure Screened (env : Env) (job : RelayJob) (inputs : List Input) (pos : Position) : Prop where
  first : pos = .start → inputs = []
  asked : pos = .resolving → .call ∈ inputs ∧ (∀ ans, .resolved ans ∉ inputs) ∧
    (∀ now dns peer, .post now dns peer ∉ inputs) ∧
    ∃ host, preflightPolicy env job = .ok (.inr host) ∧ ¬ (env.ipAddress host).isSome = true
  trying : pos.Trying → Clear env job inputs
  posted : ∀ now dns peer, .post now dns peer ∈ inputs →
    Clear env job inputs ∧ peerAllowed env job.targetUrl dns peer = true

/-- An input that is neither an answer of the resolver nor a POST keeps what the
preflight has established. -/
theorem Screened.snoc (h : Screened env job inputs pos) (hr : ∀ ans, input ≠ .resolved ans)
    (hp : ∀ now dns peer, input ≠ .post now dns peer) (hstart : pos' ≠ .start) (hask : pos' ≠ .resolving)
    (htry : pos'.Trying → Clear env job inputs) : Screened env job (inputs ++ [input]) pos' := by
  refine ⟨fun he => absurd he hstart, fun he => absurd he hask, fun ht => (htry ht).snoc hr, ?_⟩
  intro now dns peer hmem
  rcases List.mem_append.mp hmem with hmem | hmem
  · exact ⟨(h.posted now dns peer hmem).1.snoc hr, (h.posted now dns peer hmem).2⟩
  · exact absurd (List.mem_singleton.mp hmem).symm (hp now dns peer)

/-- The resolver's answer is the first, and what follows it depends on the
screen. -/
theorem Screened.answer {ans : DnsAnswer} (h : Screened env job inputs .resolving) (hstart : pos' ≠ .start)
    (hask : pos' ≠ .resolving)
    (htry : pos'.Trying → ∃ ips, ans = .addresses ips ∧ ∀ ip ∈ ips, isBlockedIp env ip = .ok false) :
    Screened env job (inputs ++ [.resolved ans]) pos' := by
  obtain ⟨hcall, hnone, hnopost, host, hpolicy, hname⟩ := h.asked rfl
  refine ⟨fun he => absurd he hstart, fun he => absurd he hask, ?_, ?_⟩
  · intro ht
    obtain ⟨ips, rfl, hclean⟩ := htry ht
    refine ⟨List.mem_append_left _ hcall, ⟨host, hpolicy, ?_⟩, ?_⟩
    · rw [if_neg hname]
      exact ⟨ips, List.mem_append_right _ (List.mem_singleton_self _)⟩
    · intro ips' hmem
      rcases List.mem_append.mp hmem with hmem | hmem
      · exact absurd hmem (hnone _)
      · cases List.mem_singleton.mp hmem
        exact hclean
  · intro now dns peer hmem
    rcases List.mem_append.mp hmem with hmem | hmem
    · exact absurd hmem (hnopost now dns peer)
    · cases List.mem_singleton.mp hmem

/-- The attempts a resolution leads to are screened. -/
theorem afterResolution_trying (hallow : job.relayAllowPrivateIps = false) {ips : List String}
    (h : (afterResolution env client job ips).Trying) : ∀ ip ∈ ips, isBlockedIp env ip = .ok false := by
  rcases afterResolution_cases env client job ips with ⟨_, -, he⟩ | ⟨_, -, he⟩ | ⟨-, _, he⟩ | ⟨hs, -⟩
  · rw [he] at h
    exact h.elim
  · rw [he] at h
    exact h.elim
  · rw [he] at h
    exact h.elim
  · rw [hallow] at hs
    exact screenIps_none hs

theorem afterResolution_ne (env : Env) (client : Bool) (job : RelayJob) (ips : List String) :
    afterResolution env client job ips ≠ .start ∧ afterResolution env client job ips ≠ .resolving := by
  rcases afterResolution_cases env client job ips with ⟨_, -, h⟩ | ⟨_, -, h⟩ | ⟨-, _, h⟩ | ⟨-, h⟩ <;> rw [h] <;>
    exact ⟨Position.noConfusion, Position.noConfusion⟩

/-- Each turn of a job that may not use private addresses keeps it screened. -/
theorem Screened.turn (h : Screened env job inputs pos) (hallow : job.relayAllowPrivateIps = false)
    (ht : Turn env client job pos input pos' eff) : Screened env job (inputs ++ [input]) pos' := by
  cases ht with
  | unparsed _ | skipped _ =>
    exact h.snoc (by intro _ he; cases he) (by intro _ _ _ he; cases he) Position.noConfusion
      Position.noConfusion (fun hf => hf.elim)
  | @literal host hpolicy hlit =>
    obtain ⟨hstart, hask⟩ := afterResolution_ne env client job [host]
    have hempty := h.first rfl
    subst hempty
    refine ⟨fun he => absurd he hstart, fun he => absurd he hask, ?_, ?_⟩
    · intro htry
      refine ⟨List.mem_singleton_self _, ⟨host, hpolicy, ?_⟩, ?_⟩
      · rw [if_pos hlit]
        exact afterResolution_trying hallow htry host (List.mem_singleton_self _)
      · intro ips hmem
        cases List.mem_singleton.mp hmem
    · intro now dns peer hmem
      cases List.mem_singleton.mp hmem
  | @named host hpolicy hname =>
    have hempty := h.first rfl
    subst hempty
    refine ⟨Position.noConfusion, ?_, fun hf => hf.elim, ?_⟩
    · intro _
      refine ⟨List.mem_singleton_self _, ?_, ?_, host, hpolicy, hname⟩
      · intro ans hmem
        cases List.mem_singleton.mp hmem
      · intro now dns peer hmem
        cases List.mem_singleton.mp hmem
    · intro now dns peer hmem
      cases List.mem_singleton.mp hmem
  | @resolved ips =>
    obtain ⟨hstart, hask⟩ := afterResolution_ne env client job ips
    exact h.answer hstart hask (fun htry => ⟨ips, rfl, afterResolution_trying hallow htry⟩)
  | gaierror | unresolved =>
    exact h.answer Position.noConfusion Position.noConfusion (fun hf => hf.elim)
  | @posted n vars now dns peer hpeer =>
    -- a POST leaves the preflight's answer as it was
    have hclear : Clear env job (inputs ++ [.post now dns peer]) :=
      (h.trying trivial).snoc (by intro _ he; cases he)
    refine ⟨Position.noConfusion, Position.noConfusion, fun _ => hclear, ?_⟩
    intro now' dns' peer' hmem
    rcases List.mem_append.mp hmem with hmem | hmem
    · exact ⟨hclear, (h.posted now' dns' peer' hmem).2⟩
    · cases List.mem_singleton.mp hmem
      exact ⟨hclear, hpeer⟩
  | @answered n vars res =>
    have hne : afterPost n vars res ≠ .start ∧ afterPost n vars res ≠ .resolving := by
      rcases afterPost_cases n vars res with ⟨_, -, he⟩ | ⟨-, -, _, he⟩ | ⟨_, -, he⟩ <;> rw [he] <;>
        exact ⟨Position.noConfusion, Position.noConfusion⟩
    exact h.snoc (by intro _ he; cases he) (by intro _ _ _ he; cases he) hne.1 hne.2
      (fun _ => h.trying trivial)
  | recorded =>
    exact h.snoc (by intro _ he; cases he) (by intro _ _ _ he; cases he) Position.noConfusion
      Position.noConfusion (fun hf => hf.elim)

theorem screened_run (h : Run (advance env client job) .start inputs effs pos)
    (hallow : job.relayAllowPrivateIps = false) : Screened env job inputs pos := by
  induction h with
  | nil =>
    refine ⟨fun _ => rfl, fun he => Position.noConfusion he, fun hf => hf.elim, ?_⟩
    intro now dns peer hmem
    cases hmem
  | snoc _ hs ih => exact ih.turn hallow (Turn.of_advance hs)

/-- `relay_event` without private addresses. Before each POST the preflight was
called, and the host is an address it found not to be blocked, or a name it had
resolved; no answer to it has a blocked address. No connection goes to a blocked
address when the host is an address itself, or in an attempt whose own resolution
returns only addresses the preflight's resolution returned. -/
theorem connections_screened (h : Run (advance env client job) .start inputs effs pos)
    (hallow : job.relayAllowPrivateIps = false) :
    (∀ l now dns peer r, inputs = l ++ .post now dns peer :: r →
      ∃ scheme hostname, env.urlparse job.targetUrl = .ok (scheme, hostname) ∧ .call ∈ l ∧
        (if (env.ipAddress (targetHost env hostname)).isSome then isBlockedIp env (targetHost env hostname) = .ok false
          else ∃ ips, .resolved (.addresses ips) ∈ l) ∧
        ∀ ips, .resolved (.addresses ips) ∈ inputs → ∀ ip ∈ ips, isBlockedIp env ip = .ok false) ∧
    ∀ now dns peer, .post now dns (some peer) ∈ inputs →
      ((∃ host, preflightPolicy env job = .ok (.inr host) ∧ (env.ipAddress host).isSome = true) ∨
        ∀ ip ∈ dns, ∃ ips, .resolved (.addresses ips) ∈ inputs ∧ ip ∈ ips) →
      isBlockedIp env peer = .ok false := by
  have hscreened := screened_run h hallow
  refine ⟨?_, ?_⟩
  · rintro l now dns peer r rfl
    obtain ⟨_, _, _, before, _, -, hl, hs, -⟩ := h.cut_action
    have htrying : before.Trying := by
      have hturn := Turn.of_advance hs
      generalize hinput : Input.post now dns peer = input at hturn
      cases hturn with
      | posted _ => trivial
      | unparsed _ | skipped _ | literal _ _ | named _ _ | resolved | gaierror | unresolved | answered | recorded =>
        cases hinput
    obtain ⟨hcall, ⟨host, hpolicy, hhost⟩, -⟩ := (screened_run hl hallow).trying htrying
    obtain ⟨scheme, hostname, hparse, rfl⟩ := preflightPolicy_host hpolicy
    have hclean := (hscreened.posted now dns peer (List.mem_append_right l List.mem_cons_self)).1.2.2
    exact ⟨scheme, hostname, hparse, hcall, hhost, hclean⟩
  · intro now dns peer hp hcover
    obtain ⟨⟨-, ⟨host, hpolicy, hhost⟩, hips⟩, hpeer⟩ := hscreened.posted now dns (some peer) hp
    obtain ⟨scheme, hostname, hparse, rfl⟩ := preflightPolicy_host hpolicy
    rw [peerAllowed, hparse] at hpeer
    simp only at hpeer
    split at hpeer
    · next hsome =>
      rw [of_decide_eq_true hpeer]
      rwa [if_pos hsome] at hhost
    · next hname =>
      rcases hcover with ⟨host, hpolicy', hsome⟩ | hseen
      · rw [hpolicy] at hpolicy'
        cases hpolicy'
        exact absurd hsome hname
      · obtain ⟨ips, hmem, hip⟩ := hseen peer (List.contains_iff_mem.mp hpeer)
        exact hips ips hmem peer hip

end

/-! ## A name that answers twice -/

def sampleJob : RelayJob where
  eventId := "e"
  relayPayload := { eventId := "e", source := "demo", receivedAt := [], payload := .null, headers := [] }
  targetUrl := "http://hooks.test/in"
  requestId := "req-1"
  relayAllowHosts := ["hooks.test"]
  relayAllowPrivateIps := false

/-- A call, a resolution to a public address, and a first attempt. -/
def attemptInputs (dns : List String) (peer : String) : List Input :=
  [.call, .resolved (.addresses ["93.184.216.34"]), .post (sampleDraws 1 40).now dns (some peer)]

theorem connections_screened_steady :
    ∃ effs pos, exec (advance sampleEnv true sampleJob) .start
        (attemptInputs ["93.184.216.34"] "93.184.216.34") = some (pos, effs) ∧
      (∃ ips, Input.resolved (.addresses ips) ∈ [.call, .resolved (.addresses ["93.184.216.34"])] ∧
        ∀ ip ∈ ips, isBlockedIp sampleEnv ip = .ok false) ∧
      isBlockedIp sampleEnv "93.184.216.34" = .ok false := by
  have hrun : ((exec (advance sampleEnv true sampleJob) .start
      (attemptInputs ["93.184.216.34"] "93.184.216.34"))).isSome = true := by
    decide +kernel
  obtain ⟨⟨pos, effs⟩, h⟩ := Option.isSome_iff_exists.mp hrun
  obtain ⟨hbefore, hpeer⟩ := connections_screened (Run.of_exec h) rfl
  refine ⟨effs, pos, h, ?_, ?_⟩
  · obtain ⟨scheme, hostname, hparse, -, hhost, hclean⟩ :=
      hbefore [.call, .resolved (.addresses ["93.184.216.34"])] _ _ _ [] rfl
    obtain ⟨rfl, rfl⟩ : "http" = scheme ∧ some "hooks.test" = hostname := by
      simpa [sampleEnv, sampleJob] using hparse
    obtain ⟨ips, hips⟩ := hhost
    exact ⟨ips, hips, hclean ips (List.mem_append_left _ hips)⟩
  · refine hpeer (sampleDraws 1 40).now ["93.184.216.34"] _ ?_ (.inr ?_)
    · exact List.mem_cons_of_mem _ (List.mem_cons_of_mem _ List.mem_cons_self)
    · intro ip hip
      exact ⟨["93.184.216.34"], List.mem_cons_of_mem _ List.mem_cons_self, hip⟩

/-- The name answers with a public address to the preflight and with a loopback
address to the client, which connects there. -/
theorem rebinding_connects :
    ∃ effs pos post, exec (advance sampleEnv true sampleJob) .start
        (attemptInputs ["127.0.0.1"] "127.0.0.1") = some (pos, effs) ∧
      sampleJob.relayAllowPrivateIps = false ∧ .posted post ∈ effs ∧ post.peer = some "127.0.0.1" ∧
      isBlockedIp sampleEnv "127.0.0.1" = .ok true := by
  have hrun : (exec (advance sampleEnv true sampleJob) .start
      (attemptInputs ["127.0.0.1"] "127.0.0.1")).map (fun r =>
        r.2.filterMap (fun eff => match eff with | .posted post => some post.peer | _ => none)) =
      some [some "127.0.0.1"] := by
    decide +kernel
  have hblocked : isBlockedIp sampleEnv "127.0.0.1" = .ok true := by decide +kernel
  obtain ⟨⟨pos, effs⟩, h, hpeers⟩ := Option.map_eq_some_iff.mp hrun
  obtain ⟨eff, heff, hpeer⟩ := List.mem_filterMap.mp (hpeers ▸ List.mem_singleton_self _)
  cases eff with
  | posted post =>
    exact ⟨effs, pos, post, h, rfl, heff, Option.some.inj hpeer, hblocked⟩
  | taken | called | resolved _ | answered _ | recorded _ | finished | dropped => cases hpeer

end WebhookRelay
