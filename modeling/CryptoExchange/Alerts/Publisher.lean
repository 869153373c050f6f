import CryptoExchange.Alerts.Thresholds

/-!
# The KPI publisher

`kpi_stream_publisher` (`app/main.py`): in every cycle it queries the trading KPIs, checks the
thresholds, broadcasts the KPIs and sleeps. `check_thresholds` lets no exception out: it gathers its
tasks with `return_exceptions`. The query (`KPIAggregator.trading_kpi`) and the broadcast do, nothing
in the loop catches it, and the task ends.
-/

namespace CryptoExchange

open Lib

structure SystemKpi where
  latencyMs : PyFloat
  errorRate : PyFloat
  uptime : PyFloat

structure SecurityKpi where
  authFailures : ℤ
  rateLimitHits : ℤ
  totalRequests : ℤ

structure TradingKpi where
  totalOrders : ℤ
  totalTrades : ℤ
  globalExposure : PyFloat

/-- What `check_thresholds` and the broadcast are given; `liquidationsTotal` is a counter of the
process that `check_thresholds` reads. -/
structure KpiSnapshot where
  system : SystemKpi
  security : SecurityKpi
  trading : TradingKpi
  liquidationsTotal : ℤ

def KpiSnapshot.kpis (k : KpiSnapshot) : Kpis where
  latencyMs := k.system.latencyMs
  errorRate := k.system.errorRate
  authFailures := k.security.authFailures
  rateLimitHits := k.security.rateLimitHits
  globalExposure := k.trading.globalExposure
  liquidationsTotal := k.liquidationsTotal

structure PublisherWorld where
  /-- The cycles that were started. -/
  cycles : ℕ := 1
  /-- The calls of `check_thresholds`. -/
  checked : List Kpis := []

inductive PublisherPhase where
  | countOrders
  | countTrades (totalOrders : ℤ)
  | sumExposure (totalOrders totalTrades : ℤ)
  | closeSession (trading : TradingKpi)
  | checkThresholds (k : KpiSnapshot)
  | broadcastKpi (k : KpiSnapshot)
  | sleep

/-- The exception that ends the task. -/
inductive PublisherError where
  | query
  | broadcast
  deriving DecidableEq

/-- What the calls of a cycle answer, and what is read from the metrics in it. -/
structure PublisherAnswer where
  fails : Bool := false
  count : ℤ := 0
  exposure : PyFloat
  system : SystemKpi
  security : SecurityKpi
  liquidationsTotal : ℤ

def publisherStep (w : PublisherWorld) (ans : PublisherAnswer) :
    PublisherPhase → PublisherWorld × Next PublisherPhase PublisherError
  | .countOrders =>
    if ans.fails then (w, .done .query) else (w, .await (.countTrades ans.count))
  | .countTrades totalOrders =>
    if ans.fails then (w, .done .query) else (w, .await (.sumExposure totalOrders ans.count))
  | .sumExposure totalOrders totalTrades =>
    if ans.fails then (w, .done .query)
    else (w, .await (.closeSession ⟨totalOrders, totalTrades, ans.exposure⟩))
  | .closeSession trading =>
    if ans.fails then (w, .done .query)
    else
      let k : KpiSnapshot := ⟨ans.system, ans.security, trading, ans.liquidationsTotal⟩
      ({ w with checked := w.checked ++ [k.kpis] }, .await (.checkThresholds k))
  | .checkThresholds k => (w, .await (.broadcastKpi k))
  | .broadcastKpi _ => if ans.fails then (w, .done .broadcast) else (w, .await .sleep)
  | .sleep => ({ w with cycles := w.cycles + 1 }, .await .countOrders)

/-! ## Cycles -/

/-- What happens in a cycle: the answers to its calls, as far as it gets. -/
structure Cycle where
  countOrders : PublisherAnswer
  countTrades : PublisherAnswer
  sumExposure : PublisherAnswer
  closeSession : PublisherAnswer
  checkThresholds : PublisherAnswer
  broadcastKpi : PublisherAnswer
  sleep : PublisherAnswer

namespace Cycle

def answers (c : Cycle) : List PublisherAnswer :=
  [c.countOrders, c.countTrades, c.sumExposure, c.closeSession, c.checkThresholds,
    c.broadcastKpi, c.sleep]

/-- The KPI query succeeds. -/
def Queried (c : Cycle) : Prop :=
  c.countOrders.fails = false ∧ c.countTrades.fails = false ∧ c.sumExposure.fails = false ∧
    c.closeSession.fails = false

instance (c : Cycle) : Decidable c.Queried := inferInstanceAs (Decidable (_ ∧ _))

/-- The KPI query or the KPI broadcast raises. -/
def Raises (c : Cycle) : Prop := ¬c.Queried ∨ c.broadcastKpi.fails = true

instance (c : Cycle) : Decidable c.Raises := inferInstanceAs (Decidable (_ ∨ _))

def kpis (c : Cycle) : Kpis :=
  KpiSnapshot.kpis ⟨c.closeSession.system, c.closeSession.security,
    ⟨c.countOrders.count, c.countTrades.count, c.sumExposure.exposure⟩,
    c.closeSession.liquidationsTotal⟩

end Cycle

/-- The publisher after these cycles. -/
def publish (cs : List Cycle) (s : PublisherWorld × Next PublisherPhase PublisherError) :
    PublisherWorld × Next PublisherPhase PublisherError :=
  feed publisherStep (cs.flatMap Cycle.answers) s

/-- The publisher at its start. -/
def publisher : PublisherWorld × Next PublisherPhase PublisherError := ({}, .await .countOrders)

@[simp] theorem publish_nil (s : PublisherWorld × Next PublisherPhase PublisherError) :
    publish [] s = s := rfl

theorem publish_cons (c : Cycle) (cs : List Cycle)
    (s : PublisherWorld × Next PublisherPhase PublisherError) :
    publish (c :: cs) s = publish cs (feed publisherStep c.answers s) := by
  rw [publish, List.flatMap_cons, feed_append]
  rfl

@[simp] theorem publish_done (cs : List Cycle) (w : PublisherWorld) (e : PublisherError) :
    publish cs (w, .done e) = (w, .done e) := feed_done ..

/-- The calls of `check_thresholds` in a cycle. -/
def Cycle.checks (c : Cycle) : List Kpis := if c.Queried then [c.kpis] else []

/-- One cycle: it checks the thresholds when the query succeeds; the next one is started unless
something raises. -/
theorem publisher_cycle (c : Cycle) (w : PublisherWorld) :
    if c.Raises then
      ∃ e, feed publisherStep c.answers (w, .await .countOrders) =
        ({ w with checked := w.checked ++ c.checks }, .done e)
    else feed publisherStep c.answers (w, .await .countOrders) =
      (⟨w.cycles + 1, w.checked ++ c.checks⟩, .await .countOrders) := by
  unfold Cycle.Raises Cycle.checks
  by_cases h₁ : c.countOrders.fails
  · simp [Cycle.answers, Cycle.Queried, publisherStep, h₁]
  by_cases h₂ : c.countTrades.fails
  · simp [Cycle.answers, Cycle.Queried, publisherStep, h₁, h₂]
  by_cases h₃ : c.sumExposure.fails
  · simp [Cycle.answers, Cycle.Queried, publisherStep, h₁, h₂, h₃]
  by_cases h₄ : c.closeSession.fails
  · simp [Cycle.answers, Cycle.Queried, publisherStep, h₁, h₂, h₃, h₄]
  by_cases h₅ : c.broadcastKpi.fails
  · simp [Cycle.answers, Cycle.Queried, publisherStep, h₁, h₂, h₃, h₄, h₅, Cycle.kpis]
  · simp [Cycle.answers, Cycle.Queried, publisherStep, h₁, h₂, h₃, h₄, h₅, Cycle.kpis, feed]

/-! ## Any number of cycles -/

/-- Cycles in which nothing raises. -/
theorem publish_working {cs : List Cycle} (h : ∀ c ∈ cs, ¬c.Raises) (w : PublisherWorld) :
    publish cs (w, .await .countOrders) =
      (⟨w.cycles + cs.length, w.checked ++ cs.flatMap Cycle.checks⟩, .await .countOrders) := by
  induction cs generalizing w with
  | nil => simp
  | cons c cs ih =>
    have hc := publisher_cycle c w
    rw [if_neg (h c List.mem_cons_self)] at hc
    rw [publish_cons, hc, ih fun d hd => h d (List.mem_cons_of_mem _ hd)]
    simp only [List.length_cons, List.flatMap_cons, List.append_assoc]
    rw [show w.cycles + 1 + cs.length = w.cycles + (cs.length + 1) by omega]

/-- The task never starts more cycles than there are, and one that raises is its last. -/
theorem publish_cycles_le (cs : List Cycle) (w : PublisherWorld) :
    (publish cs (w, .await .countOrders)).1.cycles ≤ w.cycles + cs.length ∧
      ((∃ c ∈ cs, c.Raises) →
        (publish cs (w, .await .countOrders)).1.cycles < w.cycles + cs.length) := by
  induction cs generalizing w with
  | nil => simp
  | cons c cs ih =>
    have hc := publisher_cycle c w
    rw [publish_cons, List.length_cons]
    by_cases hr : c.Raises
    · rw [if_pos hr] at hc
      obtain ⟨e, hc⟩ := hc
      rw [hc, publish_done]
      exact ⟨by dsimp only; omega, fun _ => by dsimp only; omega⟩
    · rw [if_neg hr] at hc
      rw [hc]
      obtain ⟨hle, hlt⟩ := ih ⟨w.cycles + 1, w.checked ++ c.checks⟩
      dsimp only at hle hlt
      refine ⟨by omega, ?_⟩
      rintro ⟨d, hd, hdr⟩
      rcases List.mem_cons.mp hd with rfl | hd
      · exact absurd hdr hr
      · have := hlt ⟨d, hd, hdr⟩
        omega

/-- **Compliance checking goes on** exactly when no query and no broadcast has raised: then every
cycle and the one after it are started, and `check_thresholds` is called in each whose query
succeeds. -/
theorem publisher_goes_on_iff (cs : List Cycle) :
    ((publish cs publisher).1.cycles = cs.length + 1 ∧
      (publish cs publisher).1.checked = (cs.filter fun c => c.Queried).map Cycle.kpis) ↔
        ∀ c ∈ cs, ¬c.Raises := by
  constructor
  · rintro ⟨hcycles, -⟩ c hc hr
    have := (publish_cycles_le cs {}).2 ⟨c, hc, hr⟩
    change (publish cs publisher).1.cycles < 1 + cs.length at this
    omega
  · intro h
    have hchecks : cs.flatMap Cycle.checks = (cs.filter fun c => c.Queried).map Cycle.kpis := by
      clear h
      induction cs with
      | nil => rfl
      | cons c cs ih =>
        rw [List.flatMap_cons, ih, List.filter_cons]
        by_cases hq : c.Queried <;> simp [Cycle.checks, hq]
    rw [publisher, publish_working h, ← hchecks]
    exact ⟨Nat.add_comm 1 _, rfl⟩

namespace Sample

/-- A call that answers, or raises. -/
def answered (fails : Bool) : PublisherAnswer where
  fails
  exposure := zero
  system := ⟨zero, zero, zero⟩
  security := ⟨0, 0, 0⟩
  liquidationsTotal := 0

/-- A cycle whose query succeeds. -/
def queriedCycle (broadcastFails : Bool) : Cycle :=
  ⟨answered false, answered false, answered false, answered false, answered false,
    answered broadcastFails, answered false⟩

end Sample

open Sample in
/-- The broadcast of the first of two cycles raises: the second is never started, and its thresholds
are not checked. -/
theorem publisher_ended :
    ∃ cs : List Cycle, cs.length = 2 ∧ (∀ c ∈ cs, c.Queried) ∧
      (publish cs publisher).1.cycles = 1 ∧ (publish cs publisher).1.checked.length = 1 ∧
      (publish cs publisher).2 = .done .broadcast :=
  ⟨[queriedCycle true, queriedCycle false], rfl, by decide, rfl, rfl, rfl⟩

end CryptoExchange
