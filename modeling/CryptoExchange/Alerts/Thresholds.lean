import CryptoExchange.Ledger.World

/-!
# KPI alerts

`check_thresholds` (`app/kpi/alerting.py`) and `acknowledge_alert` (`app/alerts/routes.py`), on the
table `kpi_alerts`.

A cycle computes six `Check`s and then awaits one task for each of them together: `alertStep` is
the machine of a task, and a cycle is an interleaving of the six. An exception in a task is logged
and ends it; its session is rolled back.
-/

namespace CryptoExchange

open Lib

/-! ## The table -/

inductive AlertStatus where
  | open_
  | acknowledged
  | resolved
  deriving DecidableEq

def AlertStatus.text : AlertStatus → String
  | .open_ => "OPEN"
  | .acknowledged => "ACKNOWLEDGED"
  | .resolved => "RESOLVED"

inductive AlertType where
  | latencyHigh
  | errorRateHigh
  | authFailureSpike
  | rateLimitSpike
  | liquidationSpike
  | exposureThresholdBreach
  deriving DecidableEq

def AlertType.text : AlertType → String
  | .latencyHigh => "LATENCY_HIGH"
  | .errorRateHigh => "ERROR_RATE_HIGH"
  | .authFailureSpike => "AUTH_FAILURE_SPIKE"
  | .rateLimitSpike => "RATE_LIMIT_SPIKE"
  | .liquidationSpike => "LIQUIDATION_SPIKE"
  | .exposureThresholdBreach => "EXPOSURE_THRESHOLD_BREACH"

/-- A row of `kpi_alerts`; a time is a number of microseconds. -/
structure KpiAlert where
  id : ℕ
  alertType : AlertType
  severity : String
  message : String
  metricValue : Option ℚ
  thresholdValue : Option ℚ
  status : AlertStatus
  triggeredAt : ℕ
  resolvedAt : Option ℕ := none
  acknowledgedAt : Option ℕ := none
  deriving DecidableEq

/-- The alert is waiting for its metric to normalise. -/
def KpiAlert.active (a : KpiAlert) : Bool := a.status = .open_ ∨ a.status = .acknowledged

/-! ## The checks -/

/-- Settings (`core/config.py`), and the formats of the messages. -/
structure AlertConfig where
  latencyMsThreshold : PyFloat
  errorRateThreshold : PyFloat
  authFailurePerCycle : ℤ
  rateLimitPerCycle : ℤ
  liquidationPerCycle : ℤ
  exposurePctThreshold : PyFloat
  globalExposureThreshold : PyFloat
  /-- The float nearest to the result of `/`, `*` and `float(int)`. -/
  float : ℚ → PyFloat
  /-- `f"{x:.1f}"`. -/
  oneDecimal : PyFloat → String
  /-- `f"{x:.2%}"`. -/
  percent : PyFloat → String
  /-- `f"{x:,.0f}"`. -/
  amount : PyFloat → String

/-- What a cycle reads: the three KPI dicts, and `liquidations_total`. -/
structure Kpis where
  latencyMs : PyFloat
  errorRate : PyFloat
  authFailures : ℤ
  rateLimitHits : ℤ
  globalExposure : PyFloat
  liquidationsTotal : ℤ

/-- The counters of the previous cycle. -/
structure Previous where
  authFailures : ℤ := 0
  rateLimitHits : ℤ := 0
  liquidations : ℤ := 0

/-- A tuple of `checks`. -/
structure Check where
  triggered : Bool
  alertType : AlertType
  severity : String
  message : String
  metricValue : PyFloat
  thresholdValue : PyFloat

def PyFloat.str (x : PyFloat) : String := String.ofList x.repr.chars

section

variable (cfg : AlertConfig) (prev : Previous) (k : Kpis)

def exposurePct : PyFloat :=
  if 0 < cfg.globalExposureThreshold.value then
    cfg.float ((cfg.float (k.globalExposure.value / cfg.globalExposureThreshold.value)).value * 100)
  else cfg.float 0

/-- The counters that are checked by what they rose in the cycle have one form. -/
def spike (t : AlertType) (severity noun : String) (delta perCycle : ℤ) : Check where
  triggered := perCycle ≤ delta
  alertType := t
  severity
  message := toString delta ++ " " ++ noun ++ "(s) in last cycle (threshold: " ++
    toString perCycle ++ ")"
  metricValue := cfg.float delta
  thresholdValue := cfg.float perCycle

def checks : List Check :=
  [{ triggered := cfg.latencyMsThreshold.value < k.latencyMs.value
     alertType := .latencyHigh
     severity := "WARN"
     message := "Avg latency " ++ cfg.oneDecimal k.latencyMs ++ " ms exceeds " ++
       PyFloat.str cfg.latencyMsThreshold ++ " ms threshold"
     metricValue := k.latencyMs
     thresholdValue := cfg.latencyMsThreshold },
   { triggered := cfg.errorRateThreshold.value < k.errorRate.value
     alertType := .errorRateHigh
     severity := "WARN"
     message := "Error rate " ++ cfg.percent k.errorRate ++ " exceeds " ++
       cfg.percent cfg.errorRateThreshold ++ " threshold"
     metricValue := k.errorRate
     thresholdValue := cfg.errorRateThreshold },
   spike cfg .authFailureSpike "CRITICAL" "auth failure" (k.authFailures - prev.authFailures)
     cfg.authFailurePerCycle,
   spike cfg .rateLimitSpike "WARN" "rate-limit violation" (k.rateLimitHits - prev.rateLimitHits)
     cfg.rateLimitPerCycle,
   spike cfg .liquidationSpike "CRITICAL" "liquidation" (k.liquidationsTotal - prev.liquidations)
     cfg.liquidationPerCycle,
   { triggered := cfg.exposurePctThreshold.value ≤ (exposurePct cfg k).value
     alertType := .exposureThresholdBreach
     severity := "CRITICAL"
     message := "Global exposure at " ++ cfg.oneDecimal (exposurePct cfg k) ++ "% of $" ++
       cfg.amount cfg.globalExposureThreshold ++ " limit"
     metricValue := exposurePct cfg k
     thresholdValue := cfg.exposurePctThreshold }]

/-- Every type is checked once. -/
theorem checks_types : (checks cfg prev k).map Check.alertType =
    [.latencyHigh, .errorRateHigh, .authFailureSpike, .rateLimitSpike, .liquidationSpike,
      .exposureThresholdBreach] := rfl

theorem mem_checks_types (t : AlertType) : t ∈ (checks cfg prev k).map Check.alertType := by
  rw [checks_types]
  cases t <;> decide

theorem checks_keyed : Keyed Check.alertType (checks cfg prev k) := by
  rw [Keyed, checks_types]
  decide

end

/-! ## The tasks of a cycle -/

/-- What the tasks share: the table, and the `emit` calls. -/
structure AlertWorld where
  alerts : List KpiAlert
  events : List Event := []

/-- What an awaited call answers. -/
structure AlertAnswer where
  /-- The call raises. -/
  fails : Bool := false
  /-- The id that the sequence gives to an inserted row. -/
  rowId : ℕ := 0
  /-- The clock. -/
  now : ℕ := 0

inductive AlertPhase where
  /-- `_maybe_create_alert`. -/
  | selectOpen (c : Check)
  | insert (c : Check)
  | refresh (c : Check)
  /-- `_maybe_resolve_alert`. -/
  | selectActive (t : AlertType)
  | resolve (a : KpiAlert)

def Check.start (c : Check) : AlertPhase :=
  if c.triggered then .selectOpen c else .selectActive c.alertType

def Check.alert (c : Check) (id now : ℕ) : KpiAlert where
  id
  alertType := c.alertType
  severity := c.severity
  message := c.message
  metricValue := some (Column.roundTo 8 c.metricValue.value)
  thresholdValue := some (Column.roundTo 8 c.thresholdValue.value)
  status := .open_
  triggeredAt := now

def Check.triggeredEvent (c : Check) : Event where
  eventType := "ALERT_TRIGGERED"
  eventData := some
    [("alert_type", .str c.alertType.text), ("severity", .str c.severity),
     ("message", .str c.message)]
  severity := c.severity

def KpiAlert.resolve (now : ℕ) (a : KpiAlert) : KpiAlert :=
  { a with status := .resolved, resolvedAt := some now }

/-- The results of a task are all `None`. -/
def alertStep (w : AlertWorld) (ans : AlertAnswer) : AlertPhase → AlertWorld × Next AlertPhase Unit
  | .selectOpen c =>
    if ans.fails then (w, .done ())
    else match scalarOneOrNone
        (w.alerts.filter fun a => a.alertType = c.alertType ∧ a.status = .open_) with
      | .ok none => (w, .await (.insert c))
      | _ => (w, .done ())
  | .insert c =>
    if ans.fails ∨ w.alerts.any (fun a => a.id = ans.rowId) then (w, .done ())
    else ({ w with alerts := w.alerts ++ [c.alert ans.rowId ans.now] }, .await (.refresh c))
  | .refresh c =>
    if ans.fails then (w, .done ())
    else ({ w with events := w.events ++ [c.triggeredEvent] }, .done ())
  | .selectActive t =>
    if ans.fails then (w, .done ())
    else match scalarOneOrNone (w.alerts.filter fun a => a.alertType = t ∧ a.active) with
      | .ok (some a) => (w, .await (.resolve a))
      | _ => (w, .done ())
  | .resolve a =>
    if ans.fails then (w, .done ())
    else ({ w with alerts := modify KpiAlert.id a.id (KpiAlert.resolve ans.now) w.alerts }, .done ())

/-- The database works: no call fails, and a sequence gives a new id. -/
def Working (w : AlertWorld) (ans : AlertAnswer) : AlertPhase → Prop
  | .insert _ => ans.fails = false ∧ ∀ a ∈ w.alerts, a.id ≠ ans.rowId
  | _ => ans.fails = false

/-! ## Acknowledging -/

def KpiAlert.acknowledge (now : ℕ) (a : KpiAlert) : KpiAlert :=
  { a with status := .acknowledged, acknowledgedAt := some now }

/-- `acknowledge_alert`: the table after it, and the reply. -/
def acknowledgeAlert (id now : ℕ) (alerts : List KpiAlert) :
    List KpiAlert × Except Failure KpiAlert :=
  match scalarOneOrNone (alerts.filter fun a => a.id = id) with
  | .error e => (alerts, .error e)
  | .ok none => (alerts, .error (.http 404 "Alert not found"))
  | .ok (some a) =>
    if a.status ≠ .open_ then
      (alerts, .error (.http 400
        ("Cannot acknowledge an alert with status '" ++ a.status.text ++ "'")))
    else (modify KpiAlert.id id (KpiAlert.acknowledge now) alerts, .ok (a.acknowledge now))

/-! ## Runs -/

structure AlertState where
  world : AlertWorld
  prev : Previous := {}

inductive AlertAction where
  /-- A cycle: what it reads, and the order in which its tasks run, with the answers they get. -/
  | cycle (k : Kpis) (schedule : List (ℕ × AlertAnswer))
  | acknowledge (id now : ℕ)

/-- The tasks of one cycle, with a working database. -/
def cycleTasks : Sys := (interleave alertStep fun _ _ => True).restrict (StepMeets Working)

/-- Cycles and acknowledgements in any order, from an empty table. -/
def alerting (cfg : AlertConfig) : Sys where
  St := AlertState
  Act := AlertAction
  init s := s.world.alerts = [] ∧ s.prev = {}
  step s a s' := match a with
    | .cycle k schedule =>
      s'.prev = ⟨k.authFailures, k.rateLimitHits, k.liquidationsTotal⟩ ∧
      ∃ ts, cycleTasks.Run (s.world, (checks cfg s.prev k).map fun c => .await c.start) schedule
        (s'.world, ts) ∧ ∀ t ∈ ts, t = .done ()
    | .acknowledge id now =>
      s' = { s with world.alerts := (acknowledgeAlert id now s.world.alerts).1 }

end CryptoExchange
