import Mathlib.Data.Set.Finite.Basic
import WebhookRelay.Middleware

/-
  The path labels of the request metrics. `_label_path` takes the template of
  the matched route, and the raw path when there is none, so the labels of a run
  are those of its counted requests (`labelled_run`), and they stay among the
  registered routes exactly when each of those was matched
  (`label_paths_bounded`).
-/
namespace WebhookRelay

open Py Transition

/-- A path label that `REQUEST_COUNT` or `REQUEST_LATENCY` has been used with. -/
def HttpMetrics.Labelled (m : HttpMetrics) (path : String) : Prop :=
  (∃ method status, m.requestCount (method, path, status) ≠ 0) ∨ ∃ method, m.requestLatency (method, path) ≠ 0

/-- `scope["route"]` is set to a registered route, or to none. -/
def HttpRequest.Routed (routes : Finset String) (req : HttpRequest) : Prop :=
  ∀ template, req.route = some template → template ∈ routes ∧ template ≠ ""

section

variable {env : Env} {m m' : HttpMetrics} {x : Exchange} {o : Sent} {xs : List Exchange} {os : List Sent}

theorem labelPath_matched {routes : Finset String} {req : HttpRequest} (h : req.Routed routes)
    (hr : req.route.isSome = true) : labelPath req ∈ routes := by
  obtain ⟨template, htemplate⟩ := Option.isSome_iff_exists.mp hr
  obtain ⟨hmem, hne⟩ := h template htemplate
  rw [labelPath, htemplate]
  simp only [if_neg hne]
  exact hmem

theorem labelPath_unmatched {req : HttpRequest} (h : req.route = none) : labelPath req = req.path := by
  rw [labelPath, h]

/-- Observing a request uses one label. -/
theorem HttpMetrics.labelled_observe (m : HttpMetrics) (req : HttpRequest) (status : Nat) (path : String) :
    (m.observe req status).Labelled path ↔ m.Labelled path ∨ labelPath req = path := by
  have hcount : ∀ k, (m.observe req status).requestCount k =
      m.requestCount k + if (req.method, labelPath req, toString status) = k then 1 else 0 :=
    update_succ_apply m.requestCount _
  have hlatency : ∀ k, (m.observe req status).requestLatency k =
      m.requestLatency k + if (req.method, labelPath req) = k then 1 else 0 :=
    update_succ_apply m.requestLatency _
  simp only [HttpMetrics.Labelled, hcount, hlatency]
  constructor
  · intro h
    rcases h with ⟨method, status', h⟩ | ⟨method, h⟩
    · by_cases hk : (req.method, labelPath req, toString status) = (method, path, status')
      · exact .inr (congrArg (fun k => k.2.1) hk)
      · rw [if_neg hk, Nat.add_zero] at h
        exact .inl (.inl ⟨method, status', h⟩)
    · by_cases hk : (req.method, labelPath req) = (method, path)
      · exact .inr (congrArg Prod.snd hk)
      · rw [if_neg hk, Nat.add_zero] at h
        exact .inl (.inr ⟨method, h⟩)
  · intro h
    rcases h with (⟨method, status', h⟩ | ⟨method, h⟩) | rfl
    · exact .inl ⟨method, status', fun hz => h (Nat.eq_zero_of_add_eq_zero_right hz)⟩
    · exact .inr ⟨method, fun hz => h (Nat.eq_zero_of_add_eq_zero_right hz)⟩
    · exact .inl ⟨req.method, toString status, by simp⟩

theorem labelled_step (h : serve env m x = some (m', o)) (path : String) :
    m'.Labelled path ↔ m.Labelled path ∨ (x.escaped = false ∧ labelPath x.request = path) := by
  obtain ⟨-, ⟨hesc, rfl, -⟩ | ⟨hesc, rfl, -⟩⟩ := serve_cases h
  · simp only [HttpMetrics.labelled_observe, hesc, true_and]
  · simp only [hesc, Bool.true_eq_false, false_and, or_false]

/-- The labels of a run are those it began with and those of its counted
requests. -/
theorem labelled_run (h : Run (serve env) m xs os m') (path : String) :
    m'.Labelled path ↔ m.Labelled path ∨ ∃ x ∈ xs, x.escaped = false ∧ labelPath x.request = path := by
  induction h with
  | nil => simp
  | @snoc t t' xs os x o _ hs ih =>
    rw [labelled_step hs, ih, or_assoc]
    simp only [List.mem_append, List.mem_singleton, or_and_right, exists_or, exists_eq_left]

theorem not_labelled_initial (path : String) : ¬ HttpMetrics.Labelled {} path := by
  intro h
  rcases h with ⟨_, _, h⟩ | ⟨_, h⟩
  · exact h rfl
  · exact h rfl

/-- **Path labels.** Over every sequence of requests, the path labels ever used
are registered routes if and only if each request that was counted was matched to
one, or has the text of one as its path. -/
theorem label_paths_bounded {routes : Finset String} (h : Run (serve env) {} xs os m)
    (hrouted : ∀ x ∈ xs, x.request.Routed routes) :
    (∀ path, m.Labelled path → path ∈ routes) ↔
      ∀ x ∈ xs, x.escaped = false → x.request.route.isSome = true ∨ x.request.path ∈ routes := by
  constructor
  · intro hall x hx hesc
    cases hr : x.request.route with
    | some template => exact .inl rfl
    | none =>
      have hlabel := hall (labelPath x.request) ((labelled_run h _).mpr (.inr ⟨x, hx, hesc, rfl⟩))
      rw [labelPath_unmatched hr] at hlabel
      exact .inr hlabel
  · intro hall path hpath
    rcases (labelled_run h path).mp hpath with hinit | ⟨x, hx, hesc, rfl⟩
    · exact absurd hinit (not_labelled_initial path)
    · rcases hall x hx hesc with hsome | hmem
      · exact labelPath_matched (hrouted x hx) hsome
      · cases hr : x.request.route with
        | some template => exact labelPath_matched (hrouted x hx) (by rw [hr]; rfl)
        | none =>
          rw [labelPath_unmatched hr]
          exact hmem

end

/-- The routes of api/routes.py and main.py, and those FastAPI adds for its
documentation. -/
def registeredRoutes : Finset String :=
  {"/health", "/ready", "/webhooks/\x7bsource\x7d", "/events", "/events/\x7bevent_id\x7d", "/admin/cleanup",
    "/metrics", "/openapi.json", "/docs", "/docs/oauth2-redirect", "/redoc"}

/-- A request that `create_event` refuses uses the label of its route. -/
theorem label_paths_bounded_webhooks :
    ∃ m o, serve sampleEnv {} (sampleExchange (.httpException 404 "Not found")) = some (m, o) ∧
      ∀ path, m.Labelled path → path ∈ registeredRoutes := by
  obtain ⟨m, o, hs⟩ :
      ∃ m o, serve sampleEnv {} (sampleExchange (.httpException 404 "Not found")) = some (m, o) :=
    ⟨_, _, rfl⟩
  refine ⟨m, o, hs, ?_⟩
  apply (label_paths_bounded (Run.single hs) ?_).mpr
  · intro x hx _
    obtain rfl := List.mem_singleton.mp hx
    exact .inl rfl
  · intro x hx template ht
    obtain rfl := List.mem_singleton.mp hx
    cases ht
    exact ⟨by decide, by decide⟩

/-- The path `/aaa...`, which no route matches. -/
def strayPath (n : Nat) : String := "/" ++ String.ofList (List.replicate n 'a')

theorem strayPath_injective : Function.Injective strayPath := by
  intro n k h
  have hlen := congrArg String.length h
  simpa [strayPath, String.length_append] using hlen

def strayExchange (n : Nat) : Exchange where
  request := { method := "GET", path := strayPath n, headers := [], route := none }
  uuid := (sampleDraws 1 10).requestUuid
  handlerEnd := .httpException 404 "Not Found"

/-- No finite set has the labels of all runs: requests that no route matches use
their own paths. -/
theorem label_paths_unbounded :
    ¬ ∃ labels : Finset String, ∀ xs os m, Run (serve sampleEnv) {} xs os m →
      (∀ x ∈ xs, x.request.Routed registeredRoutes) → ∀ path, m.Labelled path → path ∈ labels := by
  intro h
  obtain ⟨labels, hlabels⟩ := h
  obtain ⟨path, ⟨n, rfl⟩, hnot⟩ :=
    (Set.infinite_range_of_injective strayPath_injective).exists_notMem_finset labels
  obtain ⟨m, o, hs⟩ : ∃ m o, serve sampleEnv {} (strayExchange n) = some (m, o) := ⟨_, _, rfl⟩
  have hrun := Run.single hs
  refine hnot (hlabels _ _ _ hrun ?_ _ ((labelled_run hrun _).mpr (.inr ⟨strayExchange n, ?_, rfl, rfl⟩)))
  · intro x hx template ht
    obtain rfl := List.mem_singleton.mp hx
    cases ht
  · exact List.mem_singleton_self _

end WebhookRelay
