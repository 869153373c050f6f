import CryptoExchange.Alerts.Publisher
import CryptoExchange.Gateway.Mediation
import CryptoExchange.Gateway.RateLimit
import CryptoExchange.Lib.Balance
import Mathlib.Tactic.Ring

/-!
# The metrics

`app/metrics/prometheus.py`, with all that counts in it: `LoggingMiddleware`, which is outermost in
the stack, the two middlewares behind it, `login`, the liquidations, and the publisher that reads
the counters in each cycle.

* `Metrics`: the counters of the process, and those of Prometheus with their labels. The sum of the
  latencies, a float, is left out.
* `appStep`: a request from `LoggingMiddleware` through the stack, the route and back; a cycle of
  the publisher.
* `Ending`: how a request ends. `appStep_counts`: one step counts what it does, once.
* `windows`: what each check of the thresholds compares.
* `metrics_accounted`: at any moment each counter is the number of requests that ended so, and the
  checks count each refused request in one cycle.
-/

namespace CryptoExchange

open Lib

/-! ## The counters -/

structure Metrics where
  totalRequests : ℕ := 0
  totalErrors : ℕ := 0
  totalLatencyCount : ℕ := 0
  totalAuthFailures : ℕ := 0
  totalRateLimitHits : ℕ := 0
  totalLiquidations : ℕ := 0
  /-- The method, the endpoint and the status are labels. -/
  apiRequestsTotal : String × String × ℕ → ℕ := fun _ => 0
  apiErrorTotal : String × String × ℕ → ℕ := fun _ => 0

/-- `labels(...).inc()`. -/
def increment {L : Type} [DecidableEq L] (c : L → ℕ) (l : L) : L → ℕ :=
  Function.update c l (c l + 1)

namespace Metrics

variable (m : Metrics)

def recordApiRequest (method endpoint : String) (status : ℕ) : Metrics :=
  { m with
    apiRequestsTotal := increment m.apiRequestsTotal (method, endpoint, status)
    totalRequests := m.totalRequests + 1
    totalLatencyCount := m.totalLatencyCount + 1 }

def recordApiError (method endpoint : String) (status : ℕ) : Metrics :=
  { m with
    apiErrorTotal := increment m.apiErrorTotal (method, endpoint, status)
    totalErrors := m.totalErrors + 1 }

/-- `n` calls of `increment_auth_failure`. -/
def addAuthFailures (n : ℕ) : Metrics := { m with totalAuthFailures := m.totalAuthFailures + n }

/-- `n` calls of `increment_rate_limit_hit`. -/
def addRateLimitHits (n : ℕ) : Metrics := { m with totalRateLimitHits := m.totalRateLimitHits + n }

def incrementLiquidationEvent : Metrics := { m with totalLiquidations := m.totalLiquidations + 1 }

/-- `security_kpi`. -/
def securityKpi : SecurityKpi := ⟨m.totalAuthFailures, m.totalRateLimitHits, m.totalRequests⟩

end Metrics

/-! ## Requests -/

/-- Which middleware or handler refused a request. -/
inductive Cause where
  | none
  | auth
  | rateLimit
  deriving DecidableEq

/-- How a request ends; a handler that raises gives 500. -/
structure Ending where
  status : ℕ
  cause : Cause := .none
  deriving DecidableEq

/-- What a route does next. -/
inductive RouteAnswer where
  | working
  | responds (status : ℕ)
  | raises
  /-- `login` finds no user or a wrong password. -/
  | loginFails

structure AppAnswer where
  gate : GateAnswer := {}
  route : RouteAnswer := .working
  publisher : PublisherAnswer

structure AppWorld where
  gate : Gate
  metrics : Metrics := {}
  publisher : PublisherWorld := {}

inductive AppPhase where
  | stack (r : HttpRequest) (p : GatePhase)
  | route (r : HttpRequest)
  /-- The response on its way back to `LoggingMiddleware`. -/
  | respond (r : HttpRequest) (o : Ending)
  | publish (p : PublisherPhase)
  /-- The end of `_apply_liquidation`. -/
  | liquidated

inductive AppEnd where
  | served (r : HttpRequest) (o : Ending)
  | published (e : PublisherError)
  | counted

abbrev AppTask : Type := Next AppPhase AppEnd

/-- What `LoggingMiddleware` records. -/
def Metrics.logged (m : Metrics) (r : HttpRequest) (status : ℕ) : Metrics :=
  if 400 ≤ status then
    (m.recordApiRequest r.method r.path status).recordApiError r.method r.path status
  else m.recordApiRequest r.method r.path status

/-- The calls of `increment_auth_failure` in a step of the stack. -/
def authFailuresOf (jwt : Jwt) (g : Gate) (a : GateAnswer) : GatePhase → ℕ
  | .enter ⟨r, _, _, .auth :: _⟩ =>
    (AuthMiddleware.dispatch a.authenticate (jwt.decode (g.now + a.elapsed)) r).authFailures
  | _ => 0

/-- The calls of `increment_rate_limit_hit`. -/
def rateLimitHitsOf (p : GatePhase) (n : Next GatePhase GateReply) : ℕ :=
  match p with
  | .enter _ => 0
  | .incr .. | .expire .. => if n.isDone then 1 else 0

/-- The middleware that answers in a phase of the stack. -/
def GatePhase.cause : GatePhase → Cause
  | .enter _ => .auth
  | .incr .. | .expire .. => .rateLimit

section

variable (jwt : Jwt) (rateLimitPerMinute : ℤ)

/-- What follows a step of the stack. -/
def afterGate (r : HttpRequest) (p : GatePhase) : Next GatePhase GateReply → AppTask
  | .await p' => .await (.stack r p')
  | .done .routed => .await (.route r)
  | .done (.answered status) => .await (.respond r ⟨status, p.cause⟩)

/-- What the publisher reads of the metrics. -/
def Metrics.answer (m : Metrics) (ans : PublisherAnswer) : PublisherAnswer :=
  { ans with security := m.securityKpi, liquidationsTotal := m.totalLiquidations }

def appStep (w : AppWorld) (a : AppAnswer) : AppPhase → AppWorld × AppTask
  | .stack r p =>
    let next := GatePhase.step jwt rateLimitPerMinute w.gate a.gate p
    ({ w with
        gate := next.1
        metrics := (w.metrics.addAuthFailures (authFailuresOf jwt w.gate a.gate p)).addRateLimitHits
          (rateLimitHitsOf p next.2) },
      afterGate r p next.2)
  | .route r =>
    match a.route with
    | .working => (w, .await (.route r))
    | .responds status => (w, .await (.respond r ⟨status, .none⟩))
    | .raises => (w, .await (.respond r ⟨500, .none⟩))
    | .loginFails =>
      if r.method = "POST" ∧ r.path = "/auth/login" then
        ({ w with metrics := w.metrics.addAuthFailures 1 }, .await (.respond r ⟨401, .auth⟩))
      else (w, .await (.route r))
  | .respond r o => ({ w with metrics := w.metrics.logged r o.status }, .done (.served r o))
  | .publish p =>
    let next := publisherStep w.publisher (w.metrics.answer a.publisher) p
    ({ w with publisher := next.1 }, next.2.map .publish .published)
  | .liquidated => ({ w with metrics := w.metrics.incrementLiquidationEvent }, .done .counted)

/-- Before any of the requests. -/
structure AppStart (w : AppWorld) (ts : List AppTask) : Prop where
  metrics : w.metrics = {}
  publisher : w.publisher = {}
  tasks : ∀ t ∈ ts,
    (∃ r, t = .await (.stack r (.enter { request := r, rest := middlewareStack }))) ∨
    t = .await (.publish .countOrders) ∨ t = .await .liquidated

/-- Requests, the publisher, and liquidations, side by side. -/
def appSystem : Sys := interleave (appStep jwt rateLimitPerMinute) AppStart

end

/-! ## Outcomes -/

/-- How a request ended, as far as it has. -/
def AppTask.outcome : AppTask → Option (HttpRequest × Ending)
  | .await (.respond r o) => some (r, o)
  | .done (.served r o) => some (r, o)
  | _ => none

/-- How a request ended that `LoggingMiddleware` has recorded. -/
def AppTask.served : AppTask → Option (HttpRequest × Ending)
  | .done (.served r o) => some (r, o)
  | _ => none

theorem AppTask.served_eq_none {t : AppTask} (h : t.outcome = none) : t.served = none := by
  rcases t with p | e
  · rfl
  · cases e with
    | served => cases h
    | published | counted => rfl

/-- A request is recorded with the outcome that it has. -/
theorem AppTask.served_cases (t : AppTask) : t.served = none ∨ t.served = t.outcome := by
  rcases t with p | e
  · exact .inl rfl
  · cases e <;> exact .inr rfl

/-- A liquidation that is counted. -/
def AppTask.liquidated : AppTask → Bool
  | .done .counted => true
  | _ => false

/-- What one step does to the counters: nothing, or a request ends, or it is recorded, or a
liquidation is. -/
inductive Counts (m : Metrics) : AppPhase → Metrics → AppTask → Prop
  | quiet {p : AppPhase} {n : AppTask} : AppTask.outcome (.await p) = none → n.outcome = none →
      n.liquidated = false → Counts m p m n
  | ended {p : AppPhase} (r : HttpRequest) (o : Ending) : AppTask.outcome (.await p) = none →
      (o.cause ≠ .none → 400 ≤ o.status) →
      Counts m p ((m.addAuthFailures (if o.cause = .auth then 1 else 0)).addRateLimitHits
        (if o.cause = .rateLimit then 1 else 0)) (.await (.respond r o))
  | recorded (r : HttpRequest) (o : Ending) :
      Counts m (.respond r o) (m.logged r o.status) (.done (.served r o))
  | liquidated : Counts m .liquidated m.incrementLiquidationEvent (.done .counted)

section

variable {jwt : Jwt} {rateLimitPerMinute : ℤ}

/-- A refusal is counted, and has a status of an error. -/
theorem dispatch_refuse
    {authenticate : String → String → Except Failure (Option (ApiKey × Option User))}
    {decode : String → Option Claims} {r : HttpRequest} {status : ℕ} {detail : String}
    (h : (AuthMiddleware.dispatch authenticate decode r).outcome = .refuse status detail) :
    (AuthMiddleware.dispatch authenticate decode r).authFailures = 1 ∧ 400 ≤ status := by
  refine ⟨(AuthMiddleware.dispatch_counted authenticate decode r).2 status detail h, ?_⟩
  have refused : ∀ {code : ℕ} {text : String},
      (AuthMiddleware.refuse code text).outcome = .refuse status detail → 400 ≤ code →
        400 ≤ status := by
    intro code text e hle
    cases e
    exact hle
  unfold AuthMiddleware.dispatch at h
  dsimp only at h
  split at h
  · cases h
  split at h
  · cases h
  split at h
  · split at h
    · exact refused h (by decide)
    split at h
    · exact refused h (by decide)
    · exact refused h (by decide)
    · cases h
  · split at h
    · exact refused h (by decide)
    split at h
    · exact refused h (by decide)
    split at h
    · exact refused h (by decide)
    · cases h

/-- A step of the stack. -/
theorem gate_counts (m : Metrics) (r : HttpRequest) {g g' : Gate} {a : GateAnswer} {p : GatePhase}
    {n : Next GatePhase GateReply} (h : GatePhase.step jwt rateLimitPerMinute g a p = (g', n)) :
    Counts m (.stack r p)
      ((m.addAuthFailures (authFailuresOf jwt g a p)).addRateLimitHits (rateLimitHitsOf p n))
      (afterGate r p n) := by
  have checked : ∀ {q : Passing} {count : ℕ}, p.cause = .rateLimit →
      authFailuresOf jwt g a p = 0 → (∀ n, rateLimitHitsOf p n = if n.isDone then 1 else 0) →
      n = GatePhase.checked rateLimitPerMinute q count → Counts m (.stack r p)
        ((m.addAuthFailures (authFailuresOf jwt g a p)).addRateLimitHits (rateLimitHitsOf p n))
        (afterGate r p n) := by
    intro q count hcause ha hr hn
    rw [ha, hr]
    rcases checked_cases rateLimitPerMinute q count with hc | ⟨-, hc⟩
    · rw [hn, hc, afterGate, hcause]
      exact .ended r ⟨429, .rateLimit⟩ rfl fun _ => by decide
    · rw [hn, hc]
      exact .quiet rfl rfl rfl
  cases p with
  | enter q =>
    obtain ⟨req, state, seen, rest⟩ := q
    cases rest with
    | nil =>
      cases h
      exact .quiet rfl rfl rfl
    | cons first rest =>
      cases first with
      | logging | cors =>
        cases h
        exact .quiet rfl rfl rfl
      | rateLimit =>
        unfold GatePhase.step at h
        dsimp only at h
        split at h <;>
        · cases h
          exact .quiet rfl rfl rfl
      | auth =>
        unfold GatePhase.step at h
        dsimp only at h
        split at h
        · rename_i status detail hd
          cases h
          obtain ⟨hone, hstatus⟩ := dispatch_refuse hd
          rw [authFailuresOf, hone]
          exact .ended r ⟨status, .auth⟩ rfl fun _ => hstatus
        · rename_i forwarded hd
          cases h
          rw [authFailuresOf, (AuthMiddleware.dispatch_counted _ _ req).1 _ hd]
          exact .quiet rfl rfl rfl
  | incr q key =>
    rcases step_incr h with ⟨-, -, rfl⟩ | ⟨-, rfl | hn⟩
    · exact .quiet rfl rfl rfl
    · exact .quiet rfl rfl rfl
    · exact checked rfl rfl (fun _ => rfl) hn
  | expire q key count =>
    rcases step_expire h with ⟨-, -, rfl⟩ | ⟨-, hn⟩
    · exact .quiet rfl rfl rfl
    · exact checked rfl rfl (fun _ => rfl) hn

/-- **One step counts what it does.** -/
theorem appStep_counts {w w' : AppWorld} {a : AppAnswer} {p : AppPhase} {n : AppTask}
    (h : appStep jwt rateLimitPerMinute w a p = (w', n)) : Counts w.metrics p w'.metrics n := by
  cases p with
  | stack r p =>
    cases h
    exact gate_counts w.metrics r (Prod.ext rfl rfl)
  | route r =>
    simp only [appStep] at h
    split at h
    · cases h
      exact .quiet rfl rfl rfl
    · cases h
      exact .ended r ⟨_, .none⟩ rfl fun hc => (hc rfl).elim
    · cases h
      exact .ended r ⟨_, .none⟩ rfl fun hc => (hc rfl).elim
    · split at h
      · cases h
        exact .ended r ⟨401, .auth⟩ rfl fun _ => by decide
      · cases h
        exact .quiet rfl rfl rfl
  | respond r o =>
    cases h
    exact .recorded r o
  | publish p =>
    simp only [appStep] at h
    cases h
    refine .quiet rfl ?_ ?_
    · cases (publisherStep w.publisher (w.metrics.answer a.publisher) p).2 <;> rfl
    · cases (publisherStep w.publisher (w.metrics.answer a.publisher) p).2 <;> rfl
  | liquidated =>
    cases h
    exact .liquidated

/-! ## Counters -/

/-- A number of the metrics, and how much of it a request accounts for. A step keeps the two
together. -/
def Tracks (read : Metrics → ℕ) (mark : AppTask → Bool) : Prop :=
  ∀ m p m' n, Counts m p m' n →
    read m' + (mark (.await p)).toNat = read m + (mark n).toNat

theorem sum_toNat {α : Type} (mark : α → Bool) (l : List α) :
    (l.map fun x => (mark x).toNat).sum = l.countP mark := by
  induction l with
  | nil => rfl
  | cons x l ih =>
    rw [List.map_cons, List.sum_cons, ih, List.countP_cons, add_comm]
    cases mark x <;> rfl

/-- What a step keeps together is equal at any time. -/
theorem Tracks.count {read : Metrics → ℕ} {mark : AppTask → Bool} (h : Tracks read mark)
    (hzero : read {} = 0)
    (hnone : ∀ p, AppTask.outcome (.await p) = none → mark (.await p) = false)
    {s : AppWorld × List AppTask} (hs : (appSystem jwt rateLimitPerMinute).Reach s) :
    read s.1.metrics = s.2.countP mark := by
  have hinit : ∀ w ts, AppStart w ts →
      read w.metrics = 0 + (ts.map fun t => (mark t).toNat).sum := by
    intro w ts hw
    have hmark : ∀ t ∈ ts, mark t = false := by
      intro t ht
      rcases hw.tasks t ht with ⟨r, rfl⟩ | rfl | rfl <;> exact hnone _ rfl
    rw [hw.metrics, hzero, sum_toNat, zero_add, eq_comm, List.countP_eq_zero]
    intro t ht
    rw [hmark t ht]
    exact Bool.false_ne_true
  have hI : ((appSystem jwt rateLimitPerMinute).restrict (StepMeets fun _ _ _ => True)).Inductive
      fun _ => True := ⟨fun _ _ => trivial, fun _ _ _ _ _ => trivial⟩
  have hb := interleave_balanced (fun w => read w.metrics) (fun _ => 0)
    (fun t => (mark t).toNat) hI hinit fun s _ i a p _ _ => ?_
  · have := (hb.unrestrict fun _ _ _ _ => trivial).reach hs
    rw [sum_toNat] at this
    omega
  · obtain ⟨w', n, hstep⟩ : ∃ w' n, appStep jwt rateLimitPerMinute s.1 a p = (w', n) :=
      ⟨_, _, rfl⟩
    have := h _ _ _ _ (appStep_counts hstep)
    rw [hstep]
    dsimp only
    omega

/-- The requests that `LoggingMiddleware` has recorded. -/
theorem tracks_served {read : Metrics → ℕ} {q : HttpRequest × Ending → Bool}
    (hlogged : ∀ (m : Metrics) r o, read (m.logged r o.status) = read m + (q (r, o)).toNat)
    (hfailures : ∀ (m : Metrics) k l, read ((m.addAuthFailures k).addRateLimitHits l) = read m)
    (hliquidation : ∀ m : Metrics, read m.incrementLiquidationEvent = read m) :
    Tracks read fun t => t.served.any q := by
  rintro m p m' n (⟨hp, hn, -⟩ | ⟨r, o, hp, -⟩ | ⟨r, o⟩ | -)
  · dsimp only
    rw [AppTask.served_eq_none hp, AppTask.served_eq_none hn]
  · dsimp only
    rw [AppTask.served_eq_none hp, hfailures]
    rfl
  · rw [hlogged]
    rfl
  · rw [hliquidation]
    rfl

/-- The requests that were refused for a cause, recorded or not yet. -/
theorem tracks_cause {read : Metrics → ℕ} {cause : Cause}
    (hlogged : ∀ (m : Metrics) r status, read (m.logged r status) = read m)
    (hfailures : ∀ (m : Metrics) (o : Ending), read
      ((m.addAuthFailures (if o.cause = .auth then 1 else 0)).addRateLimitHits
        (if o.cause = .rateLimit then 1 else 0)) = read m + (decide (o.cause = cause)).toNat)
    (hliquidation : ∀ m : Metrics, read m.incrementLiquidationEvent = read m) :
    Tracks read fun t => t.outcome.any fun x => x.2.cause = cause := by
  rintro m p m' n (⟨hp, hn, -⟩ | ⟨r, o, hp, -⟩ | ⟨r, o⟩ | -)
  · dsimp only
    rw [hp, hn]
  · dsimp only
    rw [hp, hfailures]
    rfl
  · rw [hlogged]
    rfl
  · rw [hliquidation]
    rfl

/-! ## The cycles -/

/-- The checks of the thresholds: each with the counters of the one before. -/
def windows : Previous → List Kpis → List (Previous × Kpis)
  | _, [] => []
  | prev, k :: ks =>
    (prev, k) :: windows ⟨k.authFailures, k.rateLimitHits, k.liquidationsTotal⟩ ks

/-- A counter as the publisher reads it, as it was in the last cycle, and as it is. -/
structure Watched where
  now : Metrics → ℕ
  kpi : Kpis → ℤ
  prev : Previous → ℤ
  prev_kpi : ∀ k : Kpis, prev ⟨k.authFailures, k.rateLimitHits, k.liquidationsTotal⟩ = kpi k

def Watched.authFailures : Watched :=
  ⟨Metrics.totalAuthFailures, Kpis.authFailures, Previous.authFailures, fun _ => rfl⟩

def Watched.rateLimitHits : Watched :=
  ⟨Metrics.totalRateLimitHits, Kpis.rateLimitHits, Previous.rateLimitHits, fun _ => rfl⟩

def Watched.liquidations : Watched :=
  ⟨Metrics.totalLiquidations, Kpis.liquidationsTotal, Previous.liquidations, fun _ => rfl⟩

/-- What the counter rose by in each cycle. -/
def Watched.rises (c : Watched) (ks : List Kpis) : List ℤ :=
  (windows {} ks).map fun x => c.kpi x.2 - c.prev x.1

/-- The rises add up to what the last check saw. -/
theorem sum_windows (c : Watched) (prev : Previous) (ks : List Kpis) :
    ((windows prev ks).map fun x => c.kpi x.2 - c.prev x.1).sum =
      (ks.map c.kpi).getLastD (c.prev prev) - c.prev prev := by
  induction ks generalizing prev with
  | nil => simp [windows]
  | cons k ks ih =>
    rw [windows, List.map_cons, List.sum_cons, ih, c.prev_kpi, List.map_cons, List.getLastD_cons]
    ring

/-- In the order of the checks the counter does not fall. -/
theorem windows_nonneg (c : Watched) {prev : Previous} {ks : List Kpis}
    (h : (c.prev prev :: ks.map c.kpi).Pairwise (· ≤ ·)) :
    ∀ x ∈ windows prev ks, 0 ≤ c.kpi x.2 - c.prev x.1 := by
  induction ks generalizing prev with
  | nil => exact fun x hx => by cases hx
  | cons k ks ih =>
    rw [List.map_cons] at h
    obtain ⟨hhead, htail⟩ := List.pairwise_cons.mp h
    intro x hx
    rcases List.mem_cons.mp hx with rfl | hx
    · exact sub_nonneg.mpr (hhead _ List.mem_cons_self)
    · exact ih (by rwa [c.prev_kpi]) x hx

/-- What the checks saw so far: it did not fall, and it is not above what there is. -/
def Observed (c : Watched) (w : AppWorld) : Prop :=
  (w.publisher.checked.map c.kpi).Pairwise (· ≤ ·) ∧
    ∀ k ∈ w.publisher.checked, 0 ≤ c.kpi k ∧ c.kpi k ≤ c.now w.metrics

/-- A check reads the counters as they are then. -/
theorem publisherStep_checked (w : PublisherWorld) (ans : PublisherAnswer) (p : PublisherPhase) :
    (publisherStep w ans p).1.checked = w.checked ∨
      ∃ k : Kpis, (publisherStep w ans p).1.checked = w.checked ++ [k] ∧
        k.authFailures = ans.security.authFailures ∧
        k.rateLimitHits = ans.security.rateLimitHits ∧
        k.liquidationsTotal = ans.liquidationsTotal := by
  cases p with
  | closeSession trading =>
    simp only [publisherStep]
    split
    · exact .inl rfl
    · exact .inr ⟨_, rfl, rfl, rfl, rfl⟩
  | countOrders | countTrades | sumExposure | broadcastKpi =>
    simp only [publisherStep]
    split <;> exact .inl rfl
  | checkThresholds | sleep => exact .inl rfl

/-- The counter is read off the metrics, and no step lowers it. -/
structure Watched.Read (c : Watched) : Prop where
  grows : ∀ m p m' n, Counts m p m' n → c.now m ≤ c.now m'
  read : ∀ (m : Metrics) (k : Kpis), k.authFailures = m.totalAuthFailures →
    k.rateLimitHits = m.totalRateLimitHits → k.liquidationsTotal = m.totalLiquidations →
    c.kpi k = c.now m

theorem logged_counters (m : Metrics) (r : HttpRequest) (status : ℕ) :
    (m.logged r status).totalAuthFailures = m.totalAuthFailures ∧
      (m.logged r status).totalRateLimitHits = m.totalRateLimitHits ∧
      (m.logged r status).totalLiquidations = m.totalLiquidations := by
  unfold Metrics.logged
  split <;> exact ⟨rfl, rfl, rfl⟩

theorem read_authFailures : Watched.authFailures.Read where
  grows := by
    rintro m p m' n (⟨-, -, -⟩ | ⟨r, o, -, -⟩ | ⟨r, o⟩ | -)
    · exact le_rfl
    · exact Nat.le_add_right _ _
    · exact (logged_counters m r o.status).1.ge
    · exact le_rfl
  read _ _ h _ _ := h

theorem read_rateLimitHits : Watched.rateLimitHits.Read where
  grows := by
    rintro m p m' n (⟨-, -, -⟩ | ⟨r, o, -, -⟩ | ⟨r, o⟩ | -)
    · exact le_rfl
    · exact Nat.le_add_right _ _
    · exact (logged_counters m r o.status).2.1.ge
    · exact le_rfl
  read _ _ _ h _ := h

theorem read_liquidations : Watched.liquidations.Read where
  grows := by
    rintro m p m' n (⟨-, -, -⟩ | ⟨r, o, -, -⟩ | ⟨r, o⟩ | -)
    · exact le_rfl
    · exact le_rfl
    · exact (logged_counters m r o.status).2.2.ge
    · exact Nat.le_add_right _ _
  read _ _ _ _ h := h

theorem Watched.Read.step {c : Watched} (hc : c.Read) {w w' : AppWorld} {a : AppAnswer}
    {p : AppPhase} {n : AppTask} (h : Observed c w)
    (hs : appStep jwt rateLimitPerMinute w a p = (w', n)) : Observed c w' := by
  have hgrow := hc.grows _ _ _ _ (appStep_counts hs)
  have same : w'.publisher.checked = w.publisher.checked → Observed c w' := by
    intro e
    refine ⟨e ▸ h.1, fun k hk => ?_⟩
    rw [e] at hk
    exact ⟨(h.2 k hk).1, (h.2 k hk).2.trans (by exact_mod_cast hgrow)⟩
  cases p with
  | publish p =>
    cases hs
    rcases publisherStep_checked w.publisher (w.metrics.answer a.publisher) p with
      e | ⟨k, e, hauth, hrate, hliq⟩
    · exact same e
    · have hk := hc.read w.metrics k hauth hrate hliq
      refine ⟨?_, fun j hj => ?_⟩
      · show (List.map c.kpi (publisherStep w.publisher _ p).1.checked).Pairwise _
        rw [e, List.map_append, List.pairwise_append]
        refine ⟨h.1, List.pairwise_singleton _ _, fun x hx y hy => ?_⟩
        obtain ⟨j, hj, rfl⟩ := List.mem_map.mp hx
        obtain rfl := List.mem_singleton.mp hy
        exact hk ▸ (h.2 j hj).2
      · have hj' : j ∈ w.publisher.checked ++ [k] := e ▸ hj
        rcases List.mem_append.mp hj' with hj | hj
        · exact h.2 j hj
        · obtain rfl := List.mem_singleton.mp hj
          exact ⟨hk ▸ Int.natCast_nonneg _, hk.le⟩
  | route r =>
    refine same ?_
    simp only [appStep] at hs
    split at hs
    case h_4 => split at hs <;> (cases hs; rfl)
    all_goals
      cases hs
      rfl
  | stack | respond | liquidated =>
    cases hs
    exact same rfl

theorem Watched.Read.observed {c : Watched} (hc : c.Read) {s : AppWorld × List AppTask}
    (h : (appSystem jwt rateLimitPerMinute).Reach s) : Observed c s.1 := by
  have hI : (appSystem jwt rateLimitPerMinute).Inductive fun s => Observed c s.1 := by
    refine ⟨fun s hs => ?_, fun s act s' hs hst => ?_⟩
    · rw [Observed, hs.publisher]
      exact ⟨List.Pairwise.nil, fun k hk => by cases hk⟩
    · obtain ⟨p, -, rfl⟩ := hst
      exact hc.step hs rfl
  exact hI.reach h

/-- The checks of a counter: it rose in each, by what it has risen up to the last. -/
theorem Watched.Read.rises {c : Watched} (hc : c.Read) (hzero : c.prev {} = 0)
    {s : AppWorld × List AppTask} (h : (appSystem jwt rateLimitPerMinute).Reach s) :
    (∀ d ∈ c.rises s.1.publisher.checked, 0 ≤ d) ∧
      (c.rises s.1.publisher.checked).sum = (s.1.publisher.checked.map c.kpi).getLastD 0 ∧
      (c.rises s.1.publisher.checked).sum ≤ c.now s.1.metrics := by
  obtain ⟨hsorted, hbounds⟩ := hc.observed h
  have hsum : (c.rises s.1.publisher.checked).sum =
      (s.1.publisher.checked.map c.kpi).getLastD 0 := by
    rw [Watched.rises, sum_windows, hzero, sub_zero]
  refine ⟨fun d hd => ?_, hsum, ?_⟩
  · obtain ⟨x, hx, rfl⟩ := List.mem_map.mp hd
    refine windows_nonneg c (List.pairwise_cons.mpr ⟨fun y hy => ?_, hsorted⟩) x hx
    obtain ⟨k, hk, rfl⟩ := List.mem_map.mp hy
    rw [hzero]
    exact (hbounds k hk).1
  · rw [hsum]
    rcases List.eq_nil_or_concat s.1.publisher.checked with hnil | ⟨ks, k, hks⟩
    · rw [hnil]
      exact Int.natCast_nonneg _
    · rw [hks, List.concat_eq_append, List.map_append, List.map_singleton, List.getLastD_concat]
      exact (hbounds k (by rw [hks, List.concat_eq_append]; simp)).2

/-- A request that was refused ends with the status of an error. -/
theorem refused_status {s : AppWorld × List AppTask}
    (h : (appSystem jwt rateLimitPerMinute).Reach s) :
    ∀ t ∈ s.2, ∀ x ∈ AppTask.outcome t, x.2.cause ≠ .none → 400 ≤ x.2.status := by
  have hI : (appSystem jwt rateLimitPerMinute).Inductive fun s =>
      ∀ t ∈ s.2, ∀ x ∈ AppTask.outcome t, x.2.cause ≠ .none → 400 ≤ x.2.status := by
    refine ⟨fun s hs t ht x hx => ?_, fun s act s' hI hst t ht x hx => ?_⟩
    · rcases hs.tasks t ht with ⟨r, rfl⟩ | rfl | rfl <;> cases hx
    · obtain ⟨p, hp, rfl⟩ := hst
      rcases List.mem_or_eq_of_mem_set ht with ht | rfl
      · exact hI t ht x hx
      · obtain ⟨w', n, hstep⟩ : ∃ w' n, appStep jwt rateLimitPerMinute s.1 act.2 p = (w', n) :=
          ⟨_, _, rfl⟩
        have hold := hI _ (List.mem_of_getElem? hp)
        have hcounts := appStep_counts hstep
        rw [hstep] at hx
        generalize w'.metrics = m' at hcounts
        cases hcounts with
        | quiet _ hn _ =>
          dsimp only at hx
          rw [hn] at hx
          cases hx
        | ended r o _ ho =>
          cases hx
          exact ho
        | recorded r o =>
          cases hx
          exact hold _ rfl
        | liquidated => cases hx
  exact hI.reach h

theorem countP_add_le {α : Type} {a b c d : α → Bool} {l : List α}
    (h : ∀ x ∈ l, (a x).toNat + (b x).toNat ≤ (c x).toNat + (d x).toNat) :
    l.countP a + l.countP b ≤ l.countP c + l.countP d := by
  induction l with
  | nil => rfl
  | cons x l ih =>
    have hx := h x List.mem_cons_self
    have hl := ih fun y hy => h y (List.mem_cons_of_mem _ hy)
    have count : ∀ e : α → Bool, (x :: l).countP e = l.countP e + (e x).toNat := by
      intro e
      rw [List.countP_cons]
      cases e x <;> rfl
    rw [count, count, count, count]
    omega

/-- The request ended under this label. -/
def Labelled (label : String × String × ℕ) (x : HttpRequest × Ending) : Prop :=
  (x.1.method, x.1.path, x.2.status) = label

instance (label : String × String × ℕ) : DecidablePred (Labelled label) := fun x =>
  inferInstanceAs (Decidable ((x.1.method, x.1.path, x.2.status) = label))

theorem increment_eq (count : String × String × ℕ → ℕ) (label : String × String × ℕ)
    (r : HttpRequest) (o : Ending) : increment count (r.method, r.path, o.status) label =
      count label + (decide (Labelled label (r, o))).toNat := by
  rw [increment, Function.update_apply]
  by_cases e : Labelled label (r, o)
  · rw [if_pos e.symm, decide_eq_true e, e]
    rfl
  · rw [if_neg fun heq => e heq.symm, decide_eq_false e]
    rfl

theorem tracks_requests (label : String × String × ℕ) :
    Tracks (fun m => m.apiRequestsTotal label) fun t => t.served.any (Labelled label ·) := by
  refine tracks_served (fun m r o => ?_) (fun _ _ _ => rfl) fun _ => rfl
  rw [← increment_eq m.apiRequestsTotal label r o]
  unfold Metrics.logged
  split <;> rfl

theorem tracks_errors (label : String × String × ℕ) :
    Tracks (fun m => m.apiErrorTotal label) fun t => t.served.any fun x =>
      400 ≤ x.2.status ∧ Labelled label x := by
  refine tracks_served (fun m r o => ?_) (fun _ _ _ => rfl) fun _ => rfl
  unfold Metrics.logged
  by_cases ho : 400 ≤ o.status
  · rw [if_pos ho]
    exact (increment_eq m.apiErrorTotal label r o).trans (by simp [ho])
  · rw [if_neg ho, decide_eq_false fun h => ho h.1]
    rfl

theorem tracks_liquidations : Tracks Metrics.totalLiquidations AppTask.liquidated := by
  rintro m p m' n (⟨-, -, hn⟩ | ⟨r, o, -, -⟩ | ⟨r, o⟩ | -)
  · rw [hn]
    rfl
  · rfl
  · exact congrArg (· + 0) (logged_counters m r o.status).2.2
  · rfl

/-- **The metrics account for every request.** At any moment, with requests, cycles and liquidations
interleaved in any way: each counter is the number of requests that were recorded so, and the two
counters of refusals are the numbers of requests that were refused, the ones on their way back
included. So there are no more errors than requests, and no refusal that is not an error once it
is recorded. What the checks of the thresholds compare never falls, and adds up to what the last
one saw: a refusal is counted in one cycle, or has not been seen yet. -/
theorem metrics_accounted {s : AppWorld × List AppTask}
    (h : (appSystem jwt rateLimitPerMinute).Reach s) :
    s.1.metrics.totalRequests = s.2.countP (fun t => t.served.isSome) ∧
    s.1.metrics.totalLatencyCount = s.1.metrics.totalRequests ∧
    (∀ label, s.1.metrics.apiRequestsTotal label =
      s.2.countP fun t => t.served.any (Labelled label ·)) ∧
    s.1.metrics.totalErrors = s.2.countP (fun t => t.served.any fun x => 400 ≤ x.2.status) ∧
    (∀ label, s.1.metrics.apiErrorTotal label =
      s.2.countP fun t => t.served.any fun x => 400 ≤ x.2.status ∧ Labelled label x) ∧
    s.1.metrics.totalLiquidations = s.2.countP AppTask.liquidated ∧
    s.1.metrics.totalAuthFailures =
      s.2.countP (fun t => t.outcome.any fun x => x.2.cause = .auth) ∧
    s.1.metrics.totalRateLimitHits =
      s.2.countP (fun t => t.outcome.any fun x => x.2.cause = .rateLimit) ∧
    s.1.metrics.totalErrors ≤ s.1.metrics.totalRequests ∧
    s.1.metrics.totalAuthFailures + s.1.metrics.totalRateLimitHits ≤ s.1.metrics.totalErrors +
      s.2.countP (fun t => t.outcome.isSome && t.served.isNone) ∧
    ∀ c ∈ [Watched.authFailures, Watched.rateLimitHits, Watched.liquidations],
      (∀ d ∈ c.rises s.1.publisher.checked, 0 ≤ d) ∧
      (c.rises s.1.publisher.checked).sum = (s.1.publisher.checked.map c.kpi).getLastD 0 ∧
      (c.rises s.1.publisher.checked).sum ≤ c.now s.1.metrics := by
  have served : ∀ {read : Metrics → ℕ} {q : HttpRequest × Ending → Bool},
      Tracks read (fun t => t.served.any q) → read {} = 0 →
      read s.1.metrics = s.2.countP fun t => t.served.any q := fun ht hz =>
    ht.count hz (fun p ho => by rw [AppTask.served_eq_none ho]; rfl) h
  have refused : ∀ {read : Metrics → ℕ} {q : HttpRequest × Ending → Bool},
      Tracks read (fun t => t.outcome.any q) → read {} = 0 →
      read s.1.metrics = s.2.countP fun t => t.outcome.any q := fun ht hz =>
    ht.count hz (fun p ho => by rw [ho]; rfl) h
  have hrequests : s.1.metrics.totalRequests = s.2.countP fun t => t.served.any fun _ => true := by
    refine served (tracks_served (fun m r o => ?_) (fun _ _ _ => rfl) fun _ => rfl) rfl
    unfold Metrics.logged
    split <;> rfl
  have hlatencies : s.1.metrics.totalLatencyCount =
      s.2.countP fun t => t.served.any fun _ => true := by
    refine served (tracks_served (fun m r o => ?_) (fun _ _ _ => rfl) fun _ => rfl) rfl
    unfold Metrics.logged
    split <;> rfl
  have herrors : s.1.metrics.totalErrors =
      s.2.countP fun t => t.served.any fun x => 400 ≤ x.2.status := by
    refine served (tracks_served (fun m r o => ?_) (fun _ _ _ => rfl) fun _ => rfl) rfl
    unfold Metrics.logged
    by_cases ho : 400 ≤ o.status
    · rw [if_pos ho, decide_eq_true ho]
      rfl
    · rw [if_neg ho, decide_eq_false ho]
      rfl
  have hauth : s.1.metrics.totalAuthFailures =
      s.2.countP fun t => t.outcome.any fun x => x.2.cause = .auth := by
    refine refused (tracks_cause (fun m r o => (logged_counters m r o).1) (fun m o => ?_)
      fun _ => rfl) rfl
    cases o.cause <;> rfl
  have hrate : s.1.metrics.totalRateLimitHits =
      s.2.countP fun t => t.outcome.any fun x => x.2.cause = .rateLimit := by
    refine refused (tracks_cause (fun m r o => (logged_counters m r o).2.1) (fun m o => ?_)
      fun _ => rfl) rfl
    cases o.cause <;> rfl
  refine ⟨?_, hlatencies.trans hrequests.symm, fun label => served (tracks_requests label) rfl,
    herrors, fun label => served (tracks_errors label) rfl,
    tracks_liquidations.count rfl (fun _ _ => rfl) h, hauth, hrate, ?_, ?_, fun c hc => ?_⟩
  · rw [hrequests]
    exact List.countP_congr fun t _ => by cases AppTask.served t <;> simp
  · rw [herrors, hrequests]
    refine List.countP_mono_left fun t _ ht => ?_
    cases hserved : AppTask.served t with
    | none => simp [hserved] at ht
    | some x => rfl
  · rw [hauth, hrate, herrors]
    refine countP_add_le fun t ht => ?_
    cases ho : AppTask.outcome t with
    | none => simp
    | some x =>
      have hstatus := refused_status h t ht x ho
      rcases AppTask.served_cases t with hserved | hserved
      · rw [hserved]
        cases hcause : x.2.cause <;> simp [hcause]
      · rw [hserved, ho]
        cases hcause : x.2.cause with
        | none => simp [hcause]
        | auth | rateLimit => simp [hcause, hstatus (by simp [hcause])]
  · simp only [List.mem_cons, List.not_mem_nil, or_false] at hc
    rcases hc with rfl | rfl | rfl
    · exact read_authFailures.rises rfl h
    · exact read_rateLimitHits.rises rfl h
    · exact read_liquidations.rises rfl h

end

/-! ## A cycle between two refusals -/

namespace MetricsSample

/-- No one has a token. -/
def strangers : HttpRequest := ⟨"GET", "/orders", none, none, none, none⟩

def arrive (r : HttpRequest) : AppTask :=
  .await (.stack r (.enter { request := r, rest := middlewareStack }))

def start : AppWorld × List AppTask :=
  ({ gate := GateSample.start },
    [arrive strangers, arrive strangers, .await (.publish .countOrders)])

/-- `n` steps of the `i`th task. -/
def times (i n : ℕ) : List (ℕ × AppAnswer) :=
  List.replicate n (i, { publisher := Sample.answered false })

theorem start_init : (appSystem (fun _ => none) 1).init start := by
  refine ⟨rfl, rfl, fun t ht => ?_⟩
  simp only [start, List.mem_cons, List.not_mem_nil, or_false] at ht
  rcases ht with rfl | rfl | rfl
  · exact .inl ⟨_, rfl⟩
  · exact .inl ⟨_, rfl⟩
  · exact .inr (.inl rfl)

end MetricsSample

open MetricsSample in
/-- One refusal is recorded and was seen; the other is on its way back and was not. -/
theorem metrics_accounted_cycle :
    ∃ s, (appSystem (fun _ => none) 1).Reach s ∧ s.1.metrics.totalErrors = 1 ∧
      s.1.metrics.totalAuthFailures = 2 ∧
      Watched.authFailures.rises s.1.publisher.checked = [1] ∧
      s.1.metrics.totalAuthFailures + s.1.metrics.totalRateLimitHits ≤ s.1.metrics.totalErrors +
        s.2.countP (fun t : AppTask => t.outcome.isSome && t.served.isNone) := by
  let f := exec (appStep (fun _ => none) 1) fun _ _ _ => True
  have hrun : ((times 0 4 ++ times 2 4 ++ times 1 3).foldlM f start).map (fun s =>
      (s.1.metrics.totalErrors, s.1.metrics.totalAuthFailures,
        Watched.authFailures.rises s.1.publisher.checked)) = some (1, 2, [1]) := by
    decide +kernel
  obtain ⟨s, hs, hcounts⟩ := Option.map_eq_some_iff.mp hrun
  simp only [Prod.mk.injEq] at hcounts
  obtain ⟨herrors, hauth, hrises⟩ := hcounts
  have hreach : ((appSystem (fun _ => none) 1).restrict (StepMeets fun _ _ _ => True)).Reach s :=
    .foldlM (f := f) (fun _ _ _ _ h => exec_step h) (.init start_init) hs
  exact ⟨s, hreach.of_restrict, herrors, hauth, hrises,
    (metrics_accounted hreach.of_restrict).2.2.2.2.2.2.2.2.2.1⟩

end CryptoExchange
