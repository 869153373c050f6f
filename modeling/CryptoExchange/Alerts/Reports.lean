import CryptoExchange.Alerts.Sessions
import CryptoExchange.Lib.Balance
import Mathlib.Algebra.Order.Group.Multiset

/-!
# Alerts and what they report

`_maybe_create_alert` commits its row first, and then reports it with `emit`. The cycles and the
`acknowledge_alert` requests run in separate sessions, and any call can fail.

* `AlertHistory`: the checks that were made, and the rows that were stored and never reported.
* `alertStep_raised`, `alertStep_reports`: what one call of a task does to both balances.
* `alerts_reported`: each row is of a check that triggered, and is reported once or not at all.
-/

namespace CryptoExchange

open Lib

/-! ## Rows, checks and reports -/

/-- The row as its check raised it, without id and times. -/
def KpiAlert.raised (a : KpiAlert) : KpiAlert :=
  { a with
    id := 0
    status := .open_
    triggeredAt := 0
    resolvedAt := none
    acknowledgedAt := none }

/-- The event that reports the row. -/
def KpiAlert.report (a : KpiAlert) : Event where
  eventType := "ALERT_TRIGGERED"
  eventData := some
    [("alert_type", .str a.alertType.text), ("severity", .str a.severity),
     ("message", .str a.message)]
  severity := a.severity

def raisedIn (alerts : List KpiAlert) : Multiset KpiAlert := (alerts.map KpiAlert.raised : List _)

def reportsOf (alerts : List KpiAlert) : Multiset Event := (alerts.map KpiAlert.report : List _)

/-- What the checks that triggered raise. -/
def raisedBy (cs : List Check) : Multiset KpiAlert :=
  ((cs.filter Check.triggered).map fun c => c.alert 0 0 : List _)

def reportsBy (cs : List Check) : Multiset Event := (cs.map Check.triggeredEvent : List _)

/-- The row that a task can still insert. -/
def toInsert : Next AlertPhase Unit → Multiset KpiAlert
  | .await (.selectOpen c) | .await (.insert c) => {c.alert 0 0}
  | _ => 0

/-- The row that a task has inserted and can still report. -/
def toAnnounce : Next AlertPhase Unit → Multiset Event
  | .await (.refresh c) => {c.triggeredEvent}
  | _ => 0

/-- The rows that the call leaves without a report. -/
def unreportedBy (ans : AlertAnswer) : AlertPhase → List Check
  | .refresh c => if ans.fails then [c] else []
  | _ => []

theorem raisedIn_append (alerts : List KpiAlert) (c : Check) (id now : ℕ) :
    raisedIn (alerts ++ [c.alert id now]) = raisedIn alerts + {c.alert 0 0} := by
  rw [raisedIn, List.map_append, ← Multiset.coe_add]
  rfl

theorem reportsOf_append (alerts : List KpiAlert) (c : Check) (id now : ℕ) :
    reportsOf (alerts ++ [c.alert id now]) = reportsOf alerts + {c.triggeredEvent} := by
  rw [reportsOf, List.map_append, ← Multiset.coe_add]
  rfl

theorem reportsBy_append (cs cs' : List Check) :
    reportsBy (cs ++ cs') = reportsBy cs + reportsBy cs' := by
  rw [reportsBy, List.map_append, ← Multiset.coe_add]
  rfl

theorem raisedIn_resolve (id now : ℕ) (alerts : List KpiAlert) :
    raisedIn (modify KpiAlert.id id (KpiAlert.resolve now) alerts) = raisedIn alerts := by
  rw [raisedIn, map_modify KpiAlert.raised (f := KpiAlert.resolve now) fun _ => rfl]
  rfl

theorem raisedIn_acknowledge (id now : ℕ) (alerts : List KpiAlert) :
    raisedIn (modify KpiAlert.id id (KpiAlert.acknowledge now) alerts) = raisedIn alerts := by
  rw [raisedIn, map_modify KpiAlert.raised (f := KpiAlert.acknowledge now) fun _ => rfl]
  rfl

/-- A row is reported as it was raised. -/
theorem reportsOf_eq (alerts : List KpiAlert) :
    reportsOf alerts = (raisedIn alerts).map KpiAlert.report := by
  rw [raisedIn, Multiset.map_coe, List.map_map]
  rfl

theorem reportsOf_of_raisedIn {alerts alerts' : List KpiAlert}
    (h : raisedIn alerts' = raisedIn alerts) : reportsOf alerts' = reportsOf alerts := by
  rw [reportsOf_eq, reportsOf_eq, h]

@[simp] theorem reportsBy_nil : reportsBy [] = 0 := rfl

@[simp] theorem reportsBy_singleton (c : Check) : reportsBy [c] = {c.triggeredEvent} := rfl

/-! ## One call of a task -/

/-- A call takes its row from the check of its task, if it inserts one. -/
theorem alertStep_raised (w : AlertWorld) (ans : AlertAnswer) (p : AlertPhase) :
    raisedIn (alertStep w ans p).1.alerts + toInsert (alertStep w ans p).2 ≤
      raisedIn w.alerts + toInsert (.await p) := by
  cases p with
  | selectOpen c =>
    simp only [alertStep]
    split
    · simp [toInsert]
    · split <;> simp [toInsert]
  | insert c =>
    simp only [alertStep]
    split
    · simp [toInsert]
    · simp [toInsert, raisedIn_append]
  | refresh c =>
    simp only [alertStep]
    split <;> simp [toInsert]
  | selectActive t =>
    simp only [alertStep]
    split
    · simp [toInsert]
    · split <;> simp [toInsert]
  | resolve a =>
    simp only [alertStep]
    split
    · simp [toInsert]
    · simp [toInsert, raisedIn_resolve]

/-- A call that inserts a row is followed by one that reports it or leaves it without a report. -/
theorem alertStep_reports (w : AlertWorld) (ans : AlertAnswer) (p : AlertPhase) :
    reportsOf (alertStep w ans p).1.alerts + w.events + toAnnounce (.await p) =
      reportsOf w.alerts + (alertStep w ans p).1.events + toAnnounce (alertStep w ans p).2 +
        reportsBy (unreportedBy ans p) := by
  cases p with
  | selectOpen c =>
    simp only [alertStep]
    split
    · simp [toAnnounce, unreportedBy]
    · split <;> simp [toAnnounce, unreportedBy]
  | insert c =>
    simp only [alertStep]
    split
    · simp [toAnnounce, unreportedBy]
    · simp only [toAnnounce, unreportedBy, reportsOf_append, reportsBy_nil]
      abel
  | refresh c =>
    simp only [alertStep, unreportedBy]
    split
    · simp [toAnnounce]
    · simp only [toAnnounce, reportsBy_nil, ← Multiset.coe_add, Multiset.coe_singleton]
      abel
  | selectActive t =>
    simp only [alertStep]
    split
    · simp [toAnnounce, unreportedBy]
    · split <;> simp [toAnnounce, unreportedBy]
  | resolve a =>
    simp only [alertStep]
    split
    · simp [toAnnounce, unreportedBy]
    · have hrows := reportsOf_of_raisedIn (raisedIn_resolve a.id ans.now w.alerts)
      simp [toAnnounce, unreportedBy, hrows]

/-! ## Runs -/

/-- What has happened so far. -/
structure AlertHistory where
  /-- The checks of the cycles that started. -/
  checked : List Check := []
  /-- The checks whose row was stored, and whose task then failed. -/
  unreported : List Check := []

def AlertHistory.record (cfg : AlertConfig) (s : ServerState) (act : ServerAction) (_ : ServerState)
    (g : AlertHistory) : AlertHistory :=
  match act with
  | .startCycle k => { g with checked := g.checked ++ checks cfg s.prev k }
  | .task i ans =>
    match s.cycle[i]? with
    | some (.await p) => { g with unreported := g.unreported ++ unreportedBy ans p }
    | _ => g
  | _ => g

/-- Cycles and requests, interleaved, from an empty table. -/
def alertReports (cfg : AlertConfig) : Sys :=
  let server := (alertServer cfg []).withHistory ({} : AlertHistory) (AlertHistory.record cfg)
  { server with init := fun s => server.init s ∧ s.1.world.events = [] }

/-- The balances of a state: of the rows with the checks, and with the reports. -/
structure AlertsBalanced (s : ServerState × AlertHistory) : Prop where
  raised : raisedIn s.1.world.alerts + (s.1.cycle.map toInsert).sum ≤ raisedBy s.2.checked
  reported : reportsOf s.1.world.alerts =
    (s.1.world.events : Multiset Event) + (s.1.cycle.map toAnnounce).sum + reportsBy s.2.unreported

section

variable {cfg : AlertConfig} {s s' : ServerState} {g : AlertHistory}

theorem sum_done {M : Type} [AddCommMonoid M] {f : Next AlertPhase Unit → M} (hf : f (.done ()) = 0)
    {ts : List (Next AlertPhase Unit)} (h : ts.all Next.isDone) : (ts.map f).sum = 0 := by
  refine List.sum_eq_zero fun x hx => ?_
  obtain ⟨t, ht, rfl⟩ := List.mem_map.mp hx
  cases t with
  | await p => cases List.all_eq_true.mp h _ ht
  | done r => exact hf

/-- The tasks of a new cycle can insert what its checks raise. -/
theorem start_toInsert (cs : List Check) :
    ((cs.map fun c => (.await c.start : Next AlertPhase Unit)).map toInsert).sum = raisedBy cs := by
  induction cs with
  | nil => rfl
  | cons c cs ih =>
    rw [List.map_cons, List.map_cons, List.sum_cons, ih, raisedBy, raisedBy, List.filter_cons,
      Check.start]
    by_cases hc : c.triggered
    · rw [if_pos hc, if_pos hc]
      rfl
    · rw [if_neg hc, if_neg hc]
      exact zero_add _

theorem start_toAnnounce (cs : List Check) :
    ((cs.map fun c => (.await c.start : Next AlertPhase Unit)).map toAnnounce).sum = 0 := by
  refine List.sum_eq_zero fun x hx => ?_
  obtain ⟨n, hn, rfl⟩ := List.mem_map.mp hx
  obtain ⟨c, -, rfl⟩ := List.mem_map.mp hn
  unfold Check.start
  split <;> rfl

theorem raisedBy_append (cs cs' : List Check) :
    raisedBy (cs ++ cs') = raisedBy cs + raisedBy cs' := by
  rw [raisedBy, List.filter_append, List.map_append, ← Multiset.coe_add]
  rfl

theorem AlertsBalanced.startCycle {k : Kpis} (h : AlertsBalanced (s, g))
    (hst : s.next cfg (.startCycle k) = some s') :
    AlertsBalanced (s', AlertHistory.record cfg s (.startCycle k) s' g) := by
  have hdone : s.cycle.all Next.isDone := by
    simp only [ServerState.next] at hst
    split at hst
    · assumption
    · cases hst
  obtain rfl := next_startCycle hst
  obtain ⟨hraised, hreported⟩ := h
  rw [sum_done rfl hdone, add_zero] at hraised hreported
  refine ⟨?_, ?_⟩
  · simp only [AlertHistory.record, start_toInsert, raisedBy_append]
    exact add_le_add_left hraised _
  · simp only [AlertHistory.record, start_toAnnounce, add_zero]
    exact hreported

theorem AlertsBalanced.task {i : ℕ} {ans : AlertAnswer} (h : AlertsBalanced (s, g))
    (hst : s.next cfg (.task i ans) = some s') :
    AlertsBalanced (s', AlertHistory.record cfg s (.task i ans) s' g) := by
  obtain ⟨p, hp, rfl⟩ := next_task hst
  obtain ⟨hraised, hreported⟩ := h
  refine ⟨?_, ?_⟩
  · have hstep := alertStep_raised s.world ans p
    have hsum := sum_replace (f := toInsert) hp (alertStep s.world ans p).2
    simp only [AlertHistory.record, hp]
    refine le_trans ?_ hraised
    -- both sides, with what the task could insert before
    refine le_of_add_le_add_right (a := toInsert (.await p)) ?_
    calc _ = raisedIn (alertStep s.world ans p).1.alerts + toInsert (alertStep s.world ans p).2 +
          (s.cycle.map toInsert).sum := by
          rw [add_assoc, hsum]
          abel
      _ ≤ raisedIn s.world.alerts + toInsert (.await p) + (s.cycle.map toInsert).sum :=
          add_le_add_left hstep _
      _ = _ := by abel
  · have hstep := alertStep_reports s.world ans p
    have hsum := sum_replace (f := toAnnounce) hp (alertStep s.world ans p).2
    simp only [AlertHistory.record, hp, reportsBy_append]
    refine add_right_cancel (b := (s.world.events : Multiset Event) + toAnnounce (.await p)) ?_
    calc _ = reportsOf (alertStep s.world ans p).1.alerts + s.world.events +
          toAnnounce (.await p) := by abel
      _ = s.world.events + reportsBy g.unreported + (alertStep s.world ans p).1.events +
            reportsBy (unreportedBy ans p) +
            ((s.cycle.map toAnnounce).sum + toAnnounce (alertStep s.world ans p).2) := by
          rw [hstep, hreported]
          abel
      _ = _ := by
          rw [← hsum]
          abel

theorem AlertsBalanced.acknowledge {id : ℕ} (h : AlertsBalanced (s, g))
    (hst : s.next cfg (.acknowledge id) = some s') : AlertsBalanced (s', g) := by
  cases hst
  exact ⟨h.raised, h.reported⟩

/-- A request changes no row that its check raised, and reports nothing. -/
theorem acknowledgeStep_world (w : AlertWorld) (ans : AlertAnswer) (p : AcknowledgePhase) :
    raisedIn (acknowledgeStep w ans p).1.alerts = raisedIn w.alerts ∧
      (acknowledgeStep w ans p).1.events = w.events := by
  cases p with
  | select id =>
    simp only [acknowledgeStep]
    split
    · exact ⟨rfl, rfl⟩
    · split
      · exact ⟨rfl, rfl⟩
      · exact ⟨rfl, rfl⟩
      · split <;> exact ⟨rfl, rfl⟩
  | commit a =>
    simp only [acknowledgeStep]
    split
    · exact ⟨rfl, rfl⟩
    · exact ⟨raisedIn_acknowledge .., rfl⟩
  | refresh id =>
    simp only [acknowledgeStep]
    split
    · exact ⟨rfl, rfl⟩
    · split <;> exact ⟨rfl, rfl⟩

theorem AlertsBalanced.request {j : ℕ} {ans : AlertAnswer} (h : AlertsBalanced (s, g))
    (hst : s.next cfg (.request j ans) = some s') : AlertsBalanced (s', g) := by
  obtain ⟨p, -, rfl⟩ := next_request hst
  obtain ⟨hrows, hevents⟩ := acknowledgeStep_world s.world ans p
  refine ⟨?_, ?_⟩
  · rw [hrows]
    exact h.raised
  · rw [reportsOf_of_raisedIn hrows, hevents]
    exact h.reported

theorem alertReports_balanced (cfg : AlertConfig) : (alertReports cfg).Inductive AlertsBalanced where
  init := by
    rintro ⟨s, g⟩ ⟨⟨⟨halerts, hcycle, -⟩, rfl⟩, hevents⟩
    refine ⟨?_, ?_⟩
    · rw [halerts, hcycle]
      exact le_rfl
    · rw [halerts, hcycle, hevents]
      rfl
  step := by
    rintro ⟨s, g⟩ act ⟨s', g'⟩ hs ⟨hst, hg⟩
    obtain rfl : g' = AlertHistory.record cfg s act s' g := hg
    cases act with
    | startCycle k => exact hs.startCycle hst
    | task i ans => exact hs.task hst
    | acknowledge id => exact hs.acknowledge hst
    | request j ans => exact hs.request hst

end

/-- **Alerts and reports.** In every state of every run, whichever calls fail: the rows are rows of
checks that triggered, one for a check at most; they are the reported ones, those that a task still
reports, and those whose task failed in between. When no task is left, the rows are the reported
ones exactly if no task failed so. -/
theorem alerts_reported {cfg : AlertConfig} {s : ServerState × AlertHistory}
    (h : (alertReports cfg).Reach s) :
    raisedIn s.1.world.alerts ≤ raisedBy s.2.checked ∧
    reportsOf s.1.world.alerts =
      (s.1.world.events : Multiset Event) + (s.1.cycle.map toAnnounce).sum +
        reportsBy s.2.unreported ∧
    (s.1.cycle.all Next.isDone → (reportsOf s.1.world.alerts = (s.1.world.events : Multiset Event) ↔
      s.2.unreported = [])) := by
  obtain ⟨hraised, hreported⟩ := (alertReports_balanced cfg).reach h
  refine ⟨(Multiset.le_add_right _ _).trans hraised, hreported, fun hdone => ?_⟩
  rw [hreported, sum_done rfl hdone, add_zero]
  constructor
  · intro e
    have hzero : reportsBy s.2.unreported = 0 := by simpa using e
    exact List.map_eq_nil_iff.mp (Multiset.coe_eq_zero _ |>.mp hzero)
  · intro e
    rw [e, reportsBy_nil, add_zero]

/-! ## An alert that is not reported -/

namespace Sample

/-- The latency is high. The alert is stored, and reading it back fails. -/
def unread : List ServerAction :=
  .startCycle (kpis 800) :: [{}, { rowId := 1 }, { fails := true }].map fun ans => .task 0 ans

/-- The rest of the cycle, and a cycle with a normal latency and one with a high one. -/
def readAgain : List ServerAction :=
  [1, 2, 3, 4, 5].map (fun i => .task i {}) ++
    settled ++ [1, 2, 3, 4, 5].map (fun i => .task i {}) ++
    .startCycle (kpis 800) :: (inOrder 3 2 4).map fun x => .task x.1 x.2

end Sample

open Sample in
/-- Of two alerts, one is reported. -/
theorem alerts_reported_unread :
    ∃ s, (alertReports alertConfig).Reach s ∧ s.1.cycle.all Next.isDone ∧
      s.1.world.alerts.length = 2 ∧ s.1.world.events.length = 1 ∧ s.2.unreported.length = 1 ∧
      raisedIn s.1.world.alerts ≤ raisedBy s.2.checked ∧
      reportsOf s.1.world.alerts =
        (s.1.world.events : Multiset Event) + (s.1.cycle.map toAnnounce).sum +
          reportsBy s.2.unreported := by
  let f (s : ServerState × AlertHistory) (a : ServerAction) : Option (ServerState × AlertHistory) :=
    (s.1.next alertConfig a).map fun s' => (s', AlertHistory.record alertConfig s.1 a s' s.2)
  have hf : ∀ s a s', f s a = some s' → (alertReports alertConfig).step s a s' := by
    intro s a s' h
    obtain ⟨s₁, h₁, rfl⟩ := Option.map_eq_some_iff.mp h
    exact ⟨h₁, rfl⟩
  have hrun : ((unread ++ readAgain).foldlM f (emptyServer, {})).map (fun s =>
      (s.1.cycle.all Next.isDone, s.1.world.alerts.length, s.1.world.events.length,
        s.2.unreported.length)) = some (true, 2, 1, 1) := by decide +kernel
  obtain ⟨s, hs, h⟩ := Option.map_eq_some_iff.mp hrun
  simp only [Prod.mk.injEq] at h
  have hreach : (alertReports alertConfig).Reach s :=
    .foldlM (fun s a _ s' h => hf s a s' h) (.init ⟨⟨⟨rfl, rfl, rfl⟩, rfl⟩, rfl⟩) hs
  obtain ⟨hraised, hreported, -⟩ := alerts_reported hreach
  exact ⟨s, hreach, h.1, h.2.1, h.2.2.1, h.2.2.2, hraised, hreported⟩

end CryptoExchange
