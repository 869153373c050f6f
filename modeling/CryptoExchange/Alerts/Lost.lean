import CryptoExchange.Alerts.Sessions

/-!
# Spikes that cannot be stored

`check_thresholds` advances its counters before its tasks run, and a task that fails is logged. The
next cycle compares with the advanced counters: unless they spike once more, its task looks for an
alert to resolve, and the spike is lost.

* `faultyAlerting`: cycles and acknowledgements in any order, where any call can fail.
* `Lost`: a cycle in which a counter spikes and no row is stored.
* `Stuck`: two alerts wait, so a cycle resolves neither of them.
* `spike_stored_iff`: what the first later cycle with a working database leaves.
-/

namespace CryptoExchange

open Lib

/-! ## Counters -/

/-- The counters that are checked by what they rose in the cycle. -/
inductive SpikeCounter where
  | authFailures
  | rateLimitHits
  | liquidations

namespace SpikeCounter

def alertType : SpikeCounter → AlertType
  | authFailures => .authFailureSpike
  | rateLimitHits => .rateLimitSpike
  | liquidations => .liquidationSpike

def perCycle (cfg : AlertConfig) : SpikeCounter → ℤ
  | authFailures => cfg.authFailurePerCycle
  | rateLimitHits => cfg.rateLimitPerCycle
  | liquidations => cfg.liquidationPerCycle

def now (k : Kpis) : SpikeCounter → ℤ
  | authFailures => k.authFailures
  | rateLimitHits => k.rateLimitHits
  | liquidations => k.liquidationsTotal

def previous (prev : Previous) : SpikeCounter → ℤ
  | authFailures => prev.authFailures
  | rateLimitHits => prev.rateLimitHits
  | liquidations => prev.liquidations

/-- The delta reaches the threshold. -/
def Spikes (cfg : AlertConfig) (prev : Previous) (k : Kpis) (c : SpikeCounter) : Prop :=
  c.perCycle cfg ≤ c.now k - c.previous prev

instance (cfg : AlertConfig) (prev : Previous) (k : Kpis) (c : SpikeCounter) :
    Decidable (c.Spikes cfg prev k) := inferInstanceAs (Decidable (_ ≤ _))

theorem triggers_iff (cfg : AlertConfig) (s : AlertState) (k : Kpis)
    (schedule : List (ℕ × AlertAnswer)) (c : SpikeCounter) :
    Triggers cfg c.alertType s (.cycle k schedule) ↔ c.Spikes cfg s.prev k := by
  cases c <;> simp [Triggers, checks, spike, alertType, Spikes, perCycle, now, previous]

end SpikeCounter

/-- No counter falls. -/
def NonDecreasing (prev : Previous) (k : Kpis) : Prop :=
  ∀ c : SpikeCounter, c.previous prev ≤ c.now k

theorem nonDecreasing_iff {prev : Previous} {k : Kpis} :
    NonDecreasing prev k ↔ prev.authFailures ≤ k.authFailures ∧
      prev.rateLimitHits ≤ k.rateLimitHits ∧ prev.liquidations ≤ k.liquidationsTotal := by
  constructor
  · intro h
    exact ⟨h .authFailures, h .rateLimitHits, h .liquidations⟩
  · rintro ⟨ha, hr, hl⟩ c
    cases c with
    | authFailures => exact ha
    | rateLimitHits => exact hr
    | liquidations => exact hl

instance (prev : Previous) (k : Kpis) : Decidable (NonDecreasing prev k) :=
  decidable_of_iff _ nonDecreasing_iff.symm

/-! ## A database that can fail -/

/-- The tasks of one cycle, with any answers. -/
def faultyTasks : Sys := interleave alertStep fun _ _ => True

/-- Cycles and acknowledgements in any order, from any table. -/
def faultyAlerting (cfg : AlertConfig) : Sys where
  St := AlertState
  Act := AlertAction
  init s := Keyed KpiAlert.id s.world.alerts ∧ s.prev = {}
  step s a s' := match a with
    | .cycle k schedule =>
      NonDecreasing s.prev k ∧
      s'.prev = ⟨k.authFailures, k.rateLimitHits, k.liquidationsTotal⟩ ∧
      ∃ ts, faultyTasks.Run (s.world, (checks cfg s.prev k).map fun c => .await c.start) schedule
        (s'.world, ts) ∧ ∀ t ∈ ts, t = .done ()
    | .acknowledge id now =>
      s' = { s with world.alerts := (acknowledgeAlert id now s.world.alerts).1 }

/-- All database calls of the cycle work. -/
def Works (cfg : AlertConfig) (s : AlertState) (k : Kpis) (schedule : List (ℕ × AlertAnswer)) :
    Prop :=
  ∃ s', (alerting cfg).step s (.cycle k schedule) s'

/-- The step is no cycle whose database calls all work. -/
def Failing (cfg : AlertConfig) (s : AlertState) : AlertAction → Prop
  | .cycle k schedule => ¬Works cfg s k schedule
  | .acknowledge _ _ => True

/-- A cycle in which the counter spikes while no alert of its type is open, and which stores no row
of the type. -/
structure Lost (cfg : AlertConfig) (c : SpikeCounter) (s : AlertState) (k : Kpis)
    (schedule : List (ℕ × AlertAnswer)) (s' : AlertState) : Prop where
  step : (faultyAlerting cfg).step s (.cycle k schedule) s'
  spikes : c.Spikes cfg s.prev k
  none_open : openOf c.alertType s.world.alerts = []
  unstored : alertsOf c.alertType s'.world.alerts = alertsOf c.alertType s.world.alerts

/-- An alert of the type is open, and a second one waits too: `_maybe_resolve_alert` finds several
rows and raises. -/
def Stuck (t : AlertType) (alerts : List KpiAlert) : Prop :=
  openOf t alerts ≠ [] ∧ 2 ≤ (activeOf t alerts).length

section

variable {cfg : AlertConfig} {s s' : AlertState} {k : Kpis} {schedule : List (ℕ × AlertAnswer)}

theorem faulty_of_alerting (hn : NonDecreasing s.prev k)
    (h : (alerting cfg).step s (.cycle k schedule) s') :
    (faultyAlerting cfg).step s (.cycle k schedule) s' := by
  obtain ⟨hprev, ts, hrun, hdone⟩ := h
  exact ⟨hn, hprev, ts, Sys.Run.of_restrict (S := faultyTasks) hrun, hdone⟩

/-- A cycle whose calls work is one of the system with a working database. -/
theorem alerting_of_works (h : (faultyAlerting cfg).step s (.cycle k schedule) s')
    (hw : Works cfg s k schedule) : (alerting cfg).step s (.cycle k schedule) s' := by
  obtain ⟨-, hprev, ts, hrun, hdone⟩ := h
  obtain ⟨s'', -, ts', hrun', hdone'⟩ := hw
  have heq : (s''.world, ts') = (s'.world, ts) :=
    interleave_unique (Sys.Run.of_restrict (S := faultyTasks) hrun') hrun
  obtain ⟨hworld, rfl⟩ := Prod.mk.inj heq
  rw [hworld] at hrun'
  exact ⟨hprev, ts', hrun', hdone'⟩

end

/-! ## Tables under distinct ids -/

theorem alertStep_keyed {w : AlertWorld} (hk : Keyed KpiAlert.id w.alerts) (ans : AlertAnswer)
    (p : AlertPhase) : Keyed KpiAlert.id (alertStep w ans p).1.alerts := by
  rcases alertStep_table w ans p with e | ⟨c, -, hid, e⟩ | ⟨a, -, e⟩
  · rwa [e]
  · rw [e]; exact hk.append hid
  · rw [e]; exact hk.modify fun _ => rfl

theorem faulty_keyed (cfg : AlertConfig) :
    (faultyAlerting cfg).Inductive fun s => Keyed KpiAlert.id s.world.alerts where
  init s h := h.1
  step s a s' hk h := by
    cases a with
    | cycle k schedule =>
      obtain ⟨-, -, ts, hrun, -⟩ := h
      refine hrun.keeps (I := fun v : AlertWorld × List (Next AlertPhase Unit) =>
        Keyed KpiAlert.id v.1.alerts) (fun v act v' hv hst => ?_) hk
      obtain ⟨p, -, rfl⟩ := hst
      exact alertStep_keyed hv act.2 p
    | acknowledge id now =>
      cases h
      exact keyed_acknowledge hk id now

/-! ## Cycles that do not trigger a type -/

/-- The task inserts no alert of the type. -/
def AlertPhase.Spares (t : AlertType) : AlertPhase → Prop
  | .selectOpen c | .insert c => c.alertType ≠ t
  | _ => True

theorem alertStep_spares {t : AlertType} {w : AlertWorld} {ans : AlertAnswer} {p p' : AlertPhase}
    (h : p.Spares t) (hn : (alertStep w ans p).2 = .await p') : p'.Spares t := by
  rcases alertStep_await hn with ⟨c, rfl, rfl, -, -⟩ | ⟨c, rfl, rfl⟩ | ⟨t', a, rfl, rfl⟩
  · exact h
  · trivial
  · trivial

theorem alertStep_opens_none {t : AlertType} {w : AlertWorld} (hw : openOf t w.alerts = [])
    {p : AlertPhase} (h : p.Spares t) (ans : AlertAnswer) :
    openOf t (alertStep w ans p).1.alerts = [] := by
  rcases alertStep_table w ans p with e | ⟨c, rfl, -, e⟩ | ⟨a, -, e⟩
  · rwa [e]
  · have hne : (c.alert ans.rowId ans.now).alertType ≠ t := h
    rw [e, openOf_append t _ rfl, if_neg hne, hw]
  · have hle := openOf_modify_le t (f := KpiAlert.resolve ans.now) a.id
      (by simp [KpiAlert.resolve]) w.alerts
    rw [e, ← List.length_eq_zero_iff]
    rw [hw] at hle
    exact Nat.le_zero.mp hle

theorem acknowledge_opens_none {t : AlertType} {alerts : List KpiAlert}
    (h : openOf t alerts = []) (id now : ℕ) :
    openOf t (acknowledgeAlert id now alerts).1 = [] := by
  unfold acknowledgeAlert
  split
  · exact h
  · exact h
  · split
    · exact h
    · have hle := openOf_modify_le t (f := KpiAlert.acknowledge now) id
        (by simp [KpiAlert.acknowledge]) alerts
      rw [h] at hle
      exact List.length_eq_zero_iff.mp (Nat.le_zero.mp hle)

theorem tasks_open_none {t : AlertType} {cs : List Check} {w w' : AlertWorld}
    {schedule : List (ℕ × AlertAnswer)} {ts : List (Next AlertPhase Unit)}
    (hcs : ∀ c ∈ cs, c.alertType = t → ¬c.triggered) (hw : openOf t w.alerts = [])
    (h : faultyTasks.Run (w, cs.map fun c => .await c.start) schedule (w', ts)) :
    openOf t w'.alerts = [] := by
  have start : ∀ p, .await p ∈ (cs.map fun c => (.await c.start : Next AlertPhase Unit)) →
      p.Spares t := by
    intro p hp
    obtain ⟨c, hc, e⟩ := List.mem_map.mp hp
    cases e
    unfold Check.start
    split
    · rename_i ht
      exact fun e => hcs c hc e ht
    · trivial
  refine And.left (h.keeps (I := fun v : AlertWorld × List (Next AlertPhase Unit) =>
    openOf t v.1.alerts = [] ∧ ∀ p, .await p ∈ v.2 → p.Spares t) (fun v act v' hv hst => ?_)
    ⟨hw, start⟩)
  obtain ⟨p, hp, rfl⟩ := hst
  have hspares := hv.2 p (List.mem_of_getElem? hp)
  refine ⟨alertStep_opens_none hv.1 hspares act.2, fun q hq => ?_⟩
  rcases List.mem_or_eq_of_mem_set hq with hq | hq
  · exact hv.2 q hq
  · exact alertStep_spares hspares hq.symm

/-- The system without the steps that trigger the type. -/
def quiet (cfg : AlertConfig) (t : AlertType) : Sys :=
  (faultyAlerting cfg).restrict fun s a => ¬Triggers cfg t s a

/-- Only a cycle that triggers the type opens an alert of it. -/
theorem quiet_opens_none {cfg : AlertConfig} {t : AlertType} : ∀ s a s',
    openOf t s.world.alerts = [] → (quiet cfg t).step s a s' → openOf t s'.world.alerts = [] := by
  rintro s a s' hs ⟨hq, h⟩
  cases a with
  | cycle k schedule =>
    obtain ⟨-, -, ts, hrun, -⟩ := h
    exact tasks_open_none (fun c hc e ht => hq ⟨c, hc, e, ht⟩) hs hrun
  | acknowledge id now =>
    cases h
    exact acknowledge_opens_none hs id now

/-! ## The first cycle with a working database -/

theorem openOf_alertsOf (t : AlertType) (alerts : List KpiAlert) :
    openOf t alerts = (alertsOf t alerts).filter fun a => a.status = .open_ := openOf_eq t alerts

theorem mem_activeOf_of_openOf {t : AlertType} {alerts : List KpiAlert} {a : KpiAlert}
    (h : a ∈ openOf t alerts) : a ∈ activeOf t alerts := by
  have h := List.mem_filter.mp h
  refine List.mem_filter.mpr ⟨h.1, ?_⟩
  have hp := of_decide_eq_true h.2
  simp [KpiAlert.active, hp.1, hp.2]

/-- A cycle with a working database leaves an open alert of a triggered type, and one that it cannot
resolve. -/
theorem Outcome.open_iff {c : Check} {before after : List KpiAlert} (h : Outcome c before after) :
    openOf c.alertType after ≠ [] ↔ c.triggered ∨ Stuck c.alertType before := by
  cases h with
  | deduplicated ht hd e =>
    refine iff_of_true ?_ (.inl ht)
    obtain ⟨a, ha, ho⟩ := hd
    rw [openOf_alertsOf, e]
    exact List.ne_nil_of_mem (List.mem_filter.mpr ⟨ha, by simpa using ho⟩)
  | opened ht ho =>
    refine iff_of_true ?_ (.inl ht)
    obtain ⟨b, e, hb, -⟩ := ho.opened
    rw [openOf_alertsOf, e]
    exact List.ne_nil_of_mem (List.mem_filter.mpr
      ⟨List.mem_append_right _ List.mem_cons_self, by simpa using hb⟩)
  | @resolved a now hn ha e =>
    have hcleared : activeOf c.alertType after = [] :=
      (Outcome.cleared_iff (.resolved now hn ha e) hn).mpr (by simp [ha])
    refine iff_of_false (fun hne => ?_) ?_
    · obtain ⟨b, hb⟩ := List.exists_mem_of_ne_nil _ hne
      have := mem_activeOf_of_openOf hb
      simp [hcleared] at this
    · rintro (ht | ⟨-, hl⟩)
      · simp [hn] at ht
      · simp [ha] at hl
  | left hn hl e =>
    rw [openOf_alertsOf, e, ← openOf_alertsOf]
    constructor
    · intro hne
      obtain ⟨b, hb⟩ := List.exists_mem_of_ne_nil _ hne
      have hpos := List.length_pos_of_mem (mem_activeOf_of_openOf hb)
      exact .inr ⟨hne, by omega⟩
    · rintro (ht | ⟨hne, -⟩)
      · simp [hn] at ht
      · exact hne

/-- After a lost spike no alert of the type is open. -/
theorem Lost.none_open_after {cfg : AlertConfig} {c : SpikeCounter} {s s' : AlertState} {k : Kpis}
    {schedule : List (ℕ × AlertAnswer)} (h : Lost cfg c s k schedule s') :
    openOf c.alertType s'.world.alerts = [] := by
  rw [openOf_alertsOf, h.unstored, ← openOf_alertsOf]
  exact h.none_open

/-- **A spike that cannot be stored** is found by the first cycle whose database calls work exactly
when the counter spikes in that cycle too, or the type has an open alert by then that the cycle
cannot resolve. Where the counter has not spiked in between, there is none. -/
theorem spike_stored_iff (cfg : AlertConfig) (c : SpikeCounter) {s s₁ s₂ s₃ : AlertState}
    {k k' : Kpis} {schedule schedule' : List (ℕ × AlertAnswer)} {as : List AlertAction}
    (hs : (faultyAlerting cfg).Reach s) (hl : Lost cfg c s k schedule s₁)
    (hrun : ((faultyAlerting cfg).restrict (Failing cfg)).Run s₁ as s₂)
    (h : (faultyAlerting cfg).step s₂ (.cycle k' schedule') s₃) (hw : Works cfg s₂ k' schedule') :
    (openOf c.alertType s₃.world.alerts ≠ [] ↔
        c.Spikes cfg s₂.prev k' ∨ Stuck c.alertType s₂.world.alerts) ∧
      ((quiet cfg c.alertType).Run s₁ as s₂ →
        (openOf c.alertType s₃.world.alerts ≠ [] ↔ c.Spikes cfg s₂.prev k')) := by
  have hreach : (faultyAlerting cfg).Reach s₂ := (hs.step _ hl.step).run hrun.of_restrict
  obtain ⟨-, check, hc, htrig, ho⟩ :=
    cycle_check ((faulty_keyed cfg).reach hreach) (alerting_of_works h hw) c.alertType
  have hiff := ho.open_iff
  rw [hc, ← htrig, c.triggers_iff] at hiff
  refine ⟨hiff, fun hq => ?_⟩
  have hnone : openOf c.alertType s₂.world.alerts = [] :=
    hq.keeps (I := fun s : AlertState => openOf c.alertType s.world.alerts = [])
      quiet_opens_none hl.none_open_after
  rw [hiff, or_iff_left]
  exact fun hstuck => hstuck.1 hnone

namespace Sample

/-- The KPIs after that many failed logins. -/
def failedLogins (n : ℤ) : Kpis := { kpis 0 with authFailures := n }

/-- The tasks one after the other; the one for failed logins gets the answers `spiking`. -/
def loginTasks (spiking : List AlertAnswer) : List (ℕ × AlertAnswer) :=
  let works (i : ℕ) : ℕ × AlertAnswer := (i, {})
  [0, 1].map works ++ spiking.map (fun ans => (2, ans)) ++ [3, 4, 5].map works

/-- The lookup works, and the insert fails. -/
def lossSchedule : List (ℕ × AlertAnswer) := loginTasks [{}, { fails := true }]

/-- A cycle, computed. -/
def faultyExec (s : AlertState) (k : Kpis) (schedule : List (ℕ × AlertAnswer)) :
    Option AlertState := do
  let (world, ts) ← schedule.foldlM (exec alertStep fun _ _ _ => True)
    (s.world, (checks alertConfig s.prev k).map fun c => .await c.start)
  if NonDecreasing s.prev k ∧ ts.all Next.isDone then
    some ⟨world, ⟨k.authFailures, k.rateLimitHits, k.liquidationsTotal⟩⟩ else none

theorem faultyExec_step {s s' : AlertState} {k : Kpis} {schedule : List (ℕ × AlertAnswer)}
    (h : faultyExec s k schedule = some s') :
    (faultyAlerting alertConfig).step s (.cycle k schedule) s' := by
  obtain ⟨⟨world, ts⟩, hrun, h⟩ := Option.bind_eq_some_iff.mp h
  obtain ⟨⟨hn, hdone⟩, h⟩ := Option.ite_none_right_eq_some.mp h
  cases h
  have hrun := Sys.Run.of_restrict (S := faultyTasks)
    (.foldlM (fun _ _ _ _ h => exec_step h) hrun)
  refine ⟨hn, rfl, ts, hrun, fun t ht => ?_⟩
  have := List.all_eq_true.mp hdone t ht
  cases t with
  | await p => cases this
  | done r => rfl

/-- No alerts, and counters that start at 0. -/
def noAlerts : AlertState := ⟨⟨[], []⟩, {}⟩

theorem noAlerts_reach : (faultyAlerting alertConfig).Reach noAlerts := .init ⟨List.nodup_nil, rfl⟩

/-- Ten failed logins whose alert cannot be stored, and then a cycle that works. -/
theorem lost_then (n : ℤ) (schedule : List (ℕ × AlertAnswer)) (ids : List ℕ) (hn : 10 ≤ n)
    (h : (faultyExec noAlerts (failedLogins 10) lossSchedule).bind (fun s =>
      if s.world.alerts = [] then
        (alertExec s (.cycle (failedLogins n) schedule)).map fun s' =>
          (openOf .authFailureSpike s'.world.alerts).map KpiAlert.id
      else none) = some ids) :
    ∃ s s', Lost alertConfig .authFailures noAlerts (failedLogins 10) lossSchedule s ∧
      (faultyAlerting alertConfig).step s (.cycle (failedLogins n) schedule) s' ∧
      Works alertConfig s (failedLogins n) schedule ∧ s.prev = ⟨10, 0, 0⟩ ∧
      (openOf .authFailureSpike s'.world.alerts).map KpiAlert.id = ids := by
  obtain ⟨s, hs, h⟩ := Option.bind_eq_some_iff.mp h
  obtain ⟨hnil, h⟩ := Option.ite_none_right_eq_some.mp h
  obtain ⟨s', hs', hids⟩ := Option.map_eq_some_iff.mp h
  have hstep := faultyExec_step hs
  have hprev : s.prev = ⟨10, 0, 0⟩ := hstep.2.1
  have hwork := alertExec_step hs'
  have hmono : NonDecreasing s.prev (failedLogins n) := by
    rw [hprev]
    exact nonDecreasing_iff.mpr ⟨hn, le_refl (0 : ℤ), le_refl (0 : ℤ)⟩
  refine ⟨s, s', ⟨hstep, by decide, rfl, ?_⟩, faulty_of_alerting hmono hwork, ⟨s', hwork⟩, hprev,
    hids⟩
  rw [hnil]
  rfl

end Sample

open Sample in
/-- The result for ten more failed logins: the next cycle opens the alert. -/
theorem spike_stored_again :
    ∃ s₁ k' schedule' s₃,
      Lost alertConfig .authFailures noAlerts (failedLogins 10) lossSchedule s₁ ∧
      (faultyAlerting alertConfig).step s₁ (.cycle k' schedule') s₃ ∧
      Works alertConfig s₁ k' schedule' ∧ openOf .authFailureSpike s₃.world.alerts ≠ [] := by
  obtain ⟨s, s', hl, hstep, hw, hprev, -⟩ := lost_then 20
    (loginTasks [{}, { rowId := 1 }, {}]) [1] (by decide) (by decide +kernel)
  have hspikes : SpikeCounter.authFailures.Spikes alertConfig s.prev (failedLogins 20) := by
    rw [hprev]
    decide
  have hrun : ((faultyAlerting alertConfig).restrict (Failing alertConfig)).Run s [] s :=
    Sys.run_nil.mpr rfl
  exact ⟨s, _, _, s', hl, hstep, hw,
    (spike_stored_iff alertConfig .authFailures noAlerts_reach hl hrun hstep hw).1.mpr
      (.inl hspikes)⟩

open Sample in
/-- No login fails after the ten whose alert cannot be stored: the next cycle works, and no alert is
open. -/
theorem spike_not_stored :
    ∃ s₁ schedule' s₃, (faultyAlerting alertConfig).Reach noAlerts ∧
      Lost alertConfig .authFailures noAlerts (failedLogins 10) lossSchedule s₁ ∧
      (faultyAlerting alertConfig).step s₁ (.cycle (failedLogins 10) schedule') s₃ ∧
      Works alertConfig s₁ (failedLogins 10) schedule' ∧
      openOf .authFailureSpike s₃.world.alerts = [] := by
  obtain ⟨s, s', hl, hstep, hw, -, hids⟩ := lost_then 10 (loginTasks [{}]) []
    (by decide) (by decide +kernel)
  exact ⟨s, _, s', noAlerts_reach, hl, hstep, hw, List.map_eq_nil_iff.mp hids⟩

end CryptoExchange
