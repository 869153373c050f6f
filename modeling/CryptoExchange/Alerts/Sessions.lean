import CryptoExchange.Alerts.Cleared

/-!
# Alerts in separate sessions

`kpi_stream_publisher` starts a cycle when the one before it has ended. The tasks of a cycle and the
`acknowledge_alert` requests run in sessions of their own, and every awaited call is a step.

* `acknowledgeStep`: a request as a machine; alone it is `acknowledgeAlert` (`run_acknowledge`).
* `alertServer`: the system. Calls can fail, and ids can be taken.
* `OneOpen`: at most one alert of each type is open. The task that inserts one is the only task of
  its type, and it saw none open; all other writes close alerts.
* `Forward`: no status goes back. Only a request can do that, when the alert it read as open was
  resolved before it commits (`StillUnresolved`).
-/

namespace CryptoExchange

open Lib

/-! ## Acknowledging, call by call -/

inductive AcknowledgePhase where
  | select (id : ℕ)
  | commit (a : KpiAlert)
  | refresh (id : ℕ)

/-- The session wrote `status` and `acknowledged_at` only, and commits them whatever the row is. -/
def acknowledgeStep (w : AlertWorld) (ans : AlertAnswer) :
    AcknowledgePhase → AlertWorld × After AcknowledgePhase KpiAlert
  | .select id =>
    if ans.fails then (w, .done (.error .database))
    else match scalarOneOrNone (w.alerts.filter fun a => a.id = id) with
      | .error e => (w, .done (.error e))
      | .ok none => (w, .done (.error (.http 404 "Alert not found")))
      | .ok (some a) =>
        if a.status ≠ .open_ then
          (w, .done (.error (.http 400
            ("Cannot acknowledge an alert with status '" ++ a.status.text ++ "'"))))
        else (w, .await (.commit a))
  | .commit a =>
    if ans.fails then (w, .done (.error .database))
    else ({ w with alerts := modify KpiAlert.id a.id (KpiAlert.acknowledge ans.now) w.alerts },
      .await (.refresh a.id))
  | .refresh id =>
    if ans.fails then (w, .done (.error .database))
    else match findRow KpiAlert.id id w.alerts with
      | some a => (w, .done (.ok a))
      | none => (w, .done (.error .database))

/-- A request alone, on a working database. -/
theorem run_acknowledge {w : AlertWorld} (hk : Keyed KpiAlert.id w.alerts) (id now : ℕ) :
    run acknowledgeStep [{}, { now }, {}] w (.select id) =
      some ({ w with alerts := (acknowledgeAlert id now w.alerts).1 },
        (acknowledgeAlert id now w.alerts).2) := by
  unfold acknowledgeAlert
  rw [run]
  simp only [acknowledgeStep, Bool.false_eq_true, if_false]
  cases hs : scalarOneOrNone (w.alerts.filter fun a => a.id = id) with
  | error e => rfl
  | ok o =>
    cases o with
    | none => rfl
    | some a =>
      by_cases ho : a.status = .open_
      · have ha : a ∈ w.alerts ∧ a.id = id := by
          have hm : a ∈ w.alerts.filter fun a => a.id = id := by
            rw [scalarOneOrNone_some hs]
            exact List.mem_cons_self
          simpa using hm
        obtain ⟨ha, rfl⟩ := ha
        have hm : a.acknowledge now ∈
            modify KpiAlert.id a.id (KpiAlert.acknowledge now) w.alerts :=
          mem_modify.mpr ⟨a, ha, if_pos rfl⟩
        have hkm : Keyed KpiAlert.id
            (modify KpiAlert.id a.id (KpiAlert.acknowledge now) w.alerts) :=
          hk.modify fun _ => rfl
        have hrow := hkm.findRow hm
        simp only [ho, ne_eq, not_true_eq_false, if_false, run, acknowledgeStep,
          Bool.false_eq_true]
        change findRow KpiAlert.id a.id _ = _ at hrow
        rw [hrow]
      · simp [ho]

/-! ## The system -/

structure ServerState where
  world : AlertWorld
  prev : Previous := {}
  /-- The tasks of the cycle that runs, or of the last one. -/
  cycle : List (Next AlertPhase Unit) := []
  /-- The `acknowledge_alert` requests. -/
  requests : List (After AcknowledgePhase KpiAlert) := []

inductive ServerAction where
  | startCycle (k : Kpis)
  /-- A call of a task of the cycle is answered. -/
  | task (i : ℕ) (ans : AlertAnswer)
  | acknowledge (id : ℕ)
  /-- A call of a request is answered. -/
  | request (j : ℕ) (ans : AlertAnswer)

/-- The state after an action, where there is one. -/
def ServerState.next (cfg : AlertConfig) (s : ServerState) : ServerAction → Option ServerState
  | .startCycle k =>
    if s.cycle.all Next.isDone then
      some { s with
        prev := ⟨k.authFailures, k.rateLimitHits, k.liquidationsTotal⟩
        cycle := (checks cfg s.prev k).map fun c => .await c.start }
    else none
  | .task i ans =>
    match s.cycle[i]? with
    | some (.await p) =>
      some { s with
        world := (alertStep s.world ans p).1
        cycle := s.cycle.set i (alertStep s.world ans p).2 }
    | _ => none
  | .acknowledge id => some { s with requests := s.requests ++ [.await (.select id)] }
  | .request j ans =>
    match s.requests[j]? with
    | some (.await p) =>
      some { s with
        world := (acknowledgeStep s.world ans p).1
        requests := s.requests.set j (acknowledgeStep s.world ans p).2 }
    | _ => none

/-- Cycles and requests, interleaved, on a table that is `table` at first. -/
def alertServer (cfg : AlertConfig) (table : List KpiAlert) : Sys where
  St := ServerState
  Act := ServerAction
  init s := s.world.alerts = table ∧ s.cycle = [] ∧ s.requests = []
  step s a s' := s.next cfg a = some s'

/-- What a step of a task does to the table. -/
theorem alertStep_table (w : AlertWorld) (ans : AlertAnswer) (p : AlertPhase) :
    (alertStep w ans p).1.alerts = w.alerts ∨
      (∃ c, p = .insert c ∧ (∀ a ∈ w.alerts, a.id ≠ ans.rowId) ∧
        (alertStep w ans p).1.alerts = w.alerts ++ [c.alert ans.rowId ans.now]) ∨
      ∃ a, p = .resolve a ∧ (alertStep w ans p).1.alerts =
        modify KpiAlert.id a.id (KpiAlert.resolve ans.now) w.alerts := by
  cases p with
  | selectOpen c | selectActive t =>
    refine .inl ?_
    simp only [alertStep]
    split
    · rfl
    · split <;> rfl
  | refresh c =>
    refine .inl ?_
    simp only [alertStep]
    split <;> rfl
  | insert c =>
    by_cases hf : ans.fails = true ∨ w.alerts.any (fun a => a.id = ans.rowId) = true
    · exact .inl (by simp only [alertStep, if_pos hf])
    · refine .inr (.inl ⟨c, rfl, fun a ha e => hf (Or.inr ?_), by simp only [alertStep, if_neg hf]⟩)
      exact List.any_eq_true.mpr ⟨a, ha, by simpa using e⟩
  | resolve a =>
    by_cases hf : ans.fails = true
    · exact .inl (by simp only [alertStep, if_pos hf])
    · exact .inr (.inr ⟨a, rfl, by simp only [alertStep, if_neg hf]⟩)

/-- What a step does to the table: nothing, or one of the three writes. -/
inductive Wrote (s : ServerState) (after : List KpiAlert) : ServerAction → Prop
  | nothing {a : ServerAction} : after = s.world.alerts → Wrote s after a
  | inserted {i : ℕ} {ans : AlertAnswer} {c : Check} :
      s.cycle[i]? = some (.await (.insert c)) → (∀ a ∈ s.world.alerts, a.id ≠ ans.rowId) →
      after = s.world.alerts ++ [c.alert ans.rowId ans.now] → Wrote s after (.task i ans)
  | resolved {i : ℕ} {ans : AlertAnswer} {a : KpiAlert} :
      s.cycle[i]? = some (.await (.resolve a)) →
      after = modify KpiAlert.id a.id (KpiAlert.resolve ans.now) s.world.alerts →
      Wrote s after (.task i ans)
  | acknowledged {j : ℕ} {ans : AlertAnswer} {a : KpiAlert} :
      s.requests[j]? = some (.await (.commit a)) → ans.fails = false →
      after = modify KpiAlert.id a.id (KpiAlert.acknowledge ans.now) s.world.alerts →
      Wrote s after (.request j ans)

section

variable {cfg : AlertConfig} {table : List KpiAlert} {s s' : ServerState} {a : ServerAction}

/-! ### What an action does -/

theorem next_startCycle {k : Kpis} (h : s.next cfg (.startCycle k) = some s') :
    s' = { s with
      prev := ⟨k.authFailures, k.rateLimitHits, k.liquidationsTotal⟩
      cycle := (checks cfg s.prev k).map fun c => .await c.start } := by
  simp only [ServerState.next] at h
  split at h
  · exact (Option.some.inj h).symm
  · cases h

theorem next_task {i : ℕ} {ans : AlertAnswer} (h : s.next cfg (.task i ans) = some s') :
    ∃ p, s.cycle[i]? = some (.await p) ∧ s' = { s with
      world := (alertStep s.world ans p).1
      cycle := s.cycle.set i (alertStep s.world ans p).2 } := by
  simp only [ServerState.next] at h
  split at h
  · rename_i p hp
    exact ⟨p, hp, (Option.some.inj h).symm⟩
  · cases h

theorem next_request {j : ℕ} {ans : AlertAnswer} (h : s.next cfg (.request j ans) = some s') :
    ∃ p, s.requests[j]? = some (.await p) ∧ s' = { s with
      world := (acknowledgeStep s.world ans p).1
      requests := s.requests.set j (acknowledgeStep s.world ans p).2 } := by
  simp only [ServerState.next] at h
  split at h
  · rename_i p hp
    exact ⟨p, hp, (Option.some.inj h).symm⟩
  · cases h

theorem next_wrote (h : s.next cfg a = some s') : Wrote s s'.world.alerts a := by
  cases a with
  | startCycle k =>
    obtain rfl := next_startCycle h
    exact .nothing rfl
  | acknowledge id =>
    cases h
    exact .nothing rfl
  | task i ans =>
    obtain ⟨p, hp, rfl⟩ := next_task h
    rcases alertStep_table s.world ans p with e | ⟨c, rfl, hid, e⟩ | ⟨a, rfl, e⟩
    · exact .nothing e
    · exact .inserted hp hid e
    · exact .resolved hp e
  | request j ans =>
    obtain ⟨p, hp, rfl⟩ := next_request h
    cases p with
    | select id =>
      refine .nothing ?_
      simp only [acknowledgeStep]
      split
      · rfl
      · split
        · rfl
        · rfl
        · split <;> rfl
    | commit a =>
      by_cases hf : ans.fails = true
      · exact .nothing (by simp only [acknowledgeStep, if_pos hf])
      · exact .acknowledged hp (by simpa using hf) (by simp only [acknowledgeStep, if_neg hf])
    | refresh id =>
      refine .nothing ?_
      simp only [acknowledgeStep]
      split
      · rfl
      · split <;> rfl

theorem Wrote.keyed {after : List KpiAlert} (h : Wrote s after a)
    (hk : Keyed KpiAlert.id s.world.alerts) : Keyed KpiAlert.id after := by
  cases h with
  | nothing e => rwa [e]
  | inserted _ hid e => rw [e]; exact hk.append hid
  | resolved _ e => rw [e]; exact hk.modify fun _ => rfl
  | acknowledged _ _ e => rw [e]; exact hk.modify fun _ => rfl

/-- The primary key holds in every state. -/
theorem alertServer_keyed (hk : Keyed KpiAlert.id table) :
    (alertServer cfg table).Inductive fun s => Keyed KpiAlert.id s.world.alerts where
  init s h := by
    obtain ⟨h, -⟩ := h
    rwa [h]
  step s a s' hi h := (next_wrote h).keyed hi

end

/-! ## At most one open alert -/

/-- The lookup of `_maybe_create_alert`. -/
def openOf (t : AlertType) (alerts : List KpiAlert) : List KpiAlert :=
  alerts.filter fun a => a.alertType = t ∧ a.status = .open_

/-- A write that closes alerts opens none. -/
theorem openOf_modify_le (t : AlertType) {f : KpiAlert → KpiAlert} (k : ℕ)
    (hf : ∀ a, (f a).status ≠ .open_) (alerts : List KpiAlert) :
    (openOf t (modify KpiAlert.id k f alerts)).length ≤ (openOf t alerts).length := by
  rw [openOf, openOf, Lib.modify, List.filter_map, List.length_map, ← List.countP_eq_length_filter,
    ← List.countP_eq_length_filter]
  refine List.countP_mono_left fun a _ h => ?_
  by_cases e : a.id = k
  · simp [e, hf a] at h
  · simpa [e] using h

theorem openOf_append (t : AlertType) (alerts : List KpiAlert) {b : KpiAlert}
    (hb : b.status = .open_) :
    openOf t (alerts ++ [b]) = if b.alertType = t then openOf t alerts ++ [b] else openOf t alerts := by
  rw [openOf, List.filter_append]
  by_cases h : b.alertType = t
  · simp [h, hb, openOf]
  · simp [h, openOf]

/-- How the task of a check waits: before its insert it has seen none open. -/
def AlertPhase.Waits (c : Check) (alerts : List KpiAlert) : AlertPhase → Prop
  | .selectOpen c' => c' = c
  | .insert c' => c' = c ∧ openOf c.alertType alerts = []
  | _ => True

theorem AlertPhase.Waits.mono {c : Check} {alerts alerts' : List KpiAlert} {p : AlertPhase}
    (h : p.Waits c alerts)
    (hle : (openOf c.alertType alerts').length ≤ (openOf c.alertType alerts).length) :
    p.Waits c alerts' := by
  cases p with
  | insert c' =>
    obtain ⟨hc, hn⟩ := h
    refine ⟨hc, List.length_eq_zero_iff.mp ?_⟩
    simpa [hn] using hle
  | selectOpen c' => exact h
  | refresh c' => trivial
  | selectActive t => trivial
  | resolve a => trivial

/-- What a task awaits after a call: an insert when it found none open. -/
theorem alertStep_await {w : AlertWorld} {ans : AlertAnswer} {p q : AlertPhase}
    (h : (alertStep w ans p).2 = .await q) :
    (∃ c, p = .selectOpen c ∧ q = .insert c ∧ openOf c.alertType w.alerts = [] ∧
      (alertStep w ans p).1 = w) ∨
    (∃ c, p = .insert c ∧ q = .refresh c) ∨ ∃ t a, p = .selectActive t ∧ q = .resolve a := by
  cases p with
  | selectOpen c =>
    by_cases hf : ans.fails = true
    · simp only [alertStep, if_pos hf] at h
      cases h
    · simp only [alertStep, if_neg hf] at h ⊢
      split at h
      · rename_i hs
        cases h
        exact .inl ⟨c, rfl, rfl, scalarOneOrNone_none hs, rfl⟩
      · cases h
  | insert c =>
    simp only [alertStep] at h
    split at h
    · cases h
    · cases h
      exact .inr (.inl ⟨c, rfl, rfl⟩)
  | selectActive t =>
    simp only [alertStep] at h
    split at h
    · cases h
    · split at h
      · cases h
        exact .inr (.inr ⟨t, _, rfl, rfl⟩)
      · cases h
  | refresh c | resolve a =>
    simp only [alertStep] at h
    split at h <;> cases h

/-- What a task waits for after its step. -/
theorem alertStep_waits {c : Check} {w : AlertWorld} {ans : AlertAnswer} {p p' : AlertPhase}
    (h : p.Waits c w.alerts) (hn : (alertStep w ans p).2 = .await p') :
    p'.Waits c (alertStep w ans p).1.alerts := by
  rcases alertStep_await hn with ⟨c', rfl, rfl, ho, hw⟩ | ⟨c', rfl, rfl⟩ | ⟨t, a, rfl, rfl⟩
  · obtain rfl : c' = c := h
    rw [hw]
    exact ⟨rfl, ho⟩
  · trivial
  · trivial

/-- The invariant: the table, and the tasks of the checks `cs` of the cycle. -/
structure OneOpen (s : ServerState) : Prop where
  single : ∀ t, (openOf t s.world.alerts).length ≤ 1
  tasks : ∃ cs, Keyed Check.alertType cs ∧ ∀ (i : ℕ) (p : AlertPhase),
    s.cycle[i]? = some (.await p) → ∃ c, cs[i]? = some c ∧ p.Waits c s.world.alerts

section

variable {cfg : AlertConfig} {table : List KpiAlert} {s s' : ServerState} {a : ServerAction}

/-- Only the insert of an alert of the type opens one. -/
theorem Wrote.openOf_le {after : List KpiAlert} {t : AlertType} (h : Wrote s after a)
    (ht : ∀ i ans c, a = .task i ans → s.cycle[i]? = some (.await (.insert c)) →
      c.alertType ≠ t) :
    (openOf t after).length ≤ (openOf t s.world.alerts).length := by
  cases h with
  | nothing e => rw [e]
  | @inserted i ans c hp _ e =>
    have hne : (c.alert ans.rowId ans.now).alertType ≠ t := ht i ans c rfl hp
    rw [e, openOf_append t _ rfl, if_neg hne]
  | resolved _ e => rw [e]; exact openOf_modify_le t _ (by simp [KpiAlert.resolve]) _
  | acknowledged _ _ e => rw [e]; exact openOf_modify_le t _ (by simp [KpiAlert.acknowledge]) _

theorem OneOpen.single_next (h : OneOpen s) (hst : s.next cfg a = some s') (t : AlertType) :
    (openOf t s'.world.alerts).length ≤ 1 := by
  obtain ⟨cs, -, htasks⟩ := h.tasks
  have hw := next_wrote hst
  by_cases hins : ∃ i ans c, a = .task i ans ∧ s.cycle[i]? = some (.await (.insert c)) ∧
      c.alertType = t
  · obtain ⟨i, ans, c, rfl, hp, rfl⟩ := hins
    obtain ⟨c', -, hc, hn⟩ := htasks i _ hp
    subst hc
    generalize s'.world.alerts = after at hw
    cases hw with
    | nothing e => rw [e, hn]; simp
    | inserted hp' _ e =>
      cases hp.symm.trans hp'
      rw [e, openOf_append _ _ rfl, if_pos (by rfl), hn]
      simp
    | resolved hp' => cases hp.symm.trans hp'
  · refine (hw.openOf_le fun i ans c ha hp e => hins ⟨i, ans, c, ha, hp, e⟩).trans (h.single t)

theorem OneOpen.next (h : OneOpen s) (hst : s.next cfg a = some s') : OneOpen s' := by
  refine ⟨h.single_next hst, ?_⟩
  obtain ⟨cs, hcs, htasks⟩ := h.tasks
  have hw := next_wrote hst
  cases a with
  | startCycle k =>
    obtain rfl := next_startCycle hst
    refine ⟨checks cfg s.prev k, checks_keyed cfg s.prev k, fun i p hp => ?_⟩
    rw [List.getElem?_map] at hp
    obtain ⟨c, hc, e⟩ := Option.map_eq_some_iff.mp hp
    cases e
    refine ⟨c, hc, ?_⟩
    unfold Check.start
    split
    · rfl
    · trivial
  | acknowledge id =>
    cases hst
    exact ⟨cs, hcs, htasks⟩
  | request j ans =>
    obtain ⟨q, hq, rfl⟩ := next_request hst
    refine ⟨cs, hcs, fun i p hp => ?_⟩
    obtain ⟨c, hc, hwait⟩ := htasks i p hp
    exact ⟨c, hc, hwait.mono (hw.openOf_le (fun _ _ _ ha => by cases ha))⟩
  | task i ans =>
    obtain ⟨p, hp, rfl⟩ := next_task hst
    obtain ⟨c, hc, hwait⟩ := htasks i p hp
    refine ⟨cs, hcs, fun j q hq => ?_⟩
    by_cases e : i = j
    · subst e
      have hlt := (List.getElem?_eq_some_iff.mp hp).1
      simp only [List.getElem?_set, if_pos hlt, if_true, Option.some.injEq] at hq
      exact ⟨c, hc, alertStep_waits hwait hq⟩
    · simp only [List.getElem?_set, if_neg e] at hq
      obtain ⟨c', hc', hwait'⟩ := htasks j q hq
      refine ⟨c', hc', hwait'.mono (hw.openOf_le fun i' ans' d ha hd et => e ?_)⟩
      -- the task that inserts is the task of another check
      cases ha
      cases hp.symm.trans hd
      obtain ⟨rfl, -⟩ := hwait
      have heq : d = c' :=
        hcs.eq_of_key (List.mem_of_getElem? hc) (List.mem_of_getElem? hc') et
      have hlt := (List.getElem?_eq_some_iff.mp hc).1
      exact (List.getElem?_inj hlt hcs.nodup).mp (hc.trans (heq ▸ hc'.symm))

theorem oneOpen (cfg : AlertConfig) : (alertServer cfg []).Inductive OneOpen where
  init s h := by
    obtain ⟨ht, hc, -⟩ := h
    refine ⟨fun t => by simp [ht, openOf], [], List.nodup_nil, fun i p hp => ?_⟩
    simp [hc] at hp
  step s a s' hi h := hi.next h

end

/-- **One open alert of a type** at most, in every state reached from an empty table; the lookup of
`_maybe_create_alert` never finds several rows. -/
theorem one_open_alert (cfg : AlertConfig) {s : ServerState} (h : (alertServer cfg []).Reach s)
    (t : AlertType) :
    (openOf t s.world.alerts).length ≤ 1 ∧
      ∃ r, scalarOneOrNone (openOf t s.world.alerts) = .ok r := by
  have hle := ((oneOpen cfg).reach h).single t
  refine ⟨hle, ?_⟩
  rcases hl : openOf t s.world.alerts with _ | ⟨a, _ | ⟨b, l⟩⟩
  · exact ⟨none, rfl⟩
  · exact ⟨some a, rfl⟩
  · simp [hl] at hle

/-! ## The lifecycle -/

/-- The place of a status in `OPEN`, `ACKNOWLEDGED`, `RESOLVED`. -/
def AlertStatus.rank : AlertStatus → ℕ
  | .open_ => 0
  | .acknowledged => 1
  | .resolved => 2

theorem AlertStatus.rank_le (s : AlertStatus) : s.rank ≤ AlertStatus.resolved.rank := by
  cases s <;> decide

/-- Every alert is there after, and its status has not gone back. -/
def Forward (before after : List KpiAlert) : Prop :=
  ∀ a ∈ before, ∃ a' ∈ after, a'.id = a.id ∧ a.status.rank ≤ a'.status.rank

theorem Forward.refl (l : List KpiAlert) : Forward l l := fun a ha => ⟨a, ha, rfl, le_rfl⟩

theorem Forward.trans {l₁ l₂ l₃ : List KpiAlert} (h : Forward l₁ l₂) (h' : Forward l₂ l₃) :
    Forward l₁ l₃ := by
  intro a ha
  obtain ⟨b, hb, e, hle⟩ := h a ha
  obtain ⟨c, hc, e', hle'⟩ := h' b hb
  exact ⟨c, hc, e'.trans e, hle.trans hle'⟩

theorem Forward.resolved {l l' : List KpiAlert} (h : Forward l l') (hk : Keyed KpiAlert.id l')
    {a a' : KpiAlert} (ha : a ∈ l) (ha' : a' ∈ l') (e : a'.id = a.id)
    (hs : a.status = .resolved) : a'.status = .resolved := by
  obtain ⟨b, hb, e', hle⟩ := h a ha
  obtain rfl : b = a' := hk.eq_of_key hb ha' (e'.trans e.symm)
  rw [hs] at hle
  cases hb : b.status with
  | resolved => rfl
  | open_ | acknowledged => rw [hb] at hle; exact absurd hle (by decide)

theorem forward_modify {k : ℕ} {f : KpiAlert → KpiAlert} {l : List KpiAlert}
    (hid : ∀ a, (f a).id = a.id)
    (hf : ∀ a ∈ l, a.id = k → a.status.rank ≤ (f a).status.rank) :
    Forward l (modify KpiAlert.id k f l) := by
  intro a ha
  refine ⟨_, mem_modify.mpr ⟨a, ha, rfl⟩, ?_⟩
  split
  · rename_i e
    exact ⟨hid a, hf a ha e⟩
  · exact ⟨rfl, le_rfl⟩

/-- The step commits no acknowledgement of an alert that has been resolved since it was read. -/
def StillUnresolved (s : ServerState) : ServerAction → Prop
  | .request j ans => ∀ a, s.requests[j]? = some (.await (.commit a)) → ans.fails = false →
      ∀ b ∈ s.world.alerts, b.id = a.id → b.status ≠ .resolved
  | _ => True

section

variable {cfg : AlertConfig} {table : List KpiAlert} {s s' : ServerState} {a : ServerAction}

theorem forward_of_unresolved (hst : s.next cfg a = some s') (hu : StillUnresolved s a) :
    Forward s.world.alerts s'.world.alerts := by
  have hw := next_wrote hst
  generalize s'.world.alerts = after at hw
  cases hw with
  | nothing e => rw [e]; exact .refl _
  | inserted _ _ e =>
    rw [e]
    exact fun a ha => ⟨a, List.mem_append_left _ ha, rfl, le_rfl⟩
  | resolved _ e =>
    rw [e]
    exact forward_modify (fun _ => rfl) fun a _ _ => a.status.rank_le
  | @acknowledged j ans a hp hf e =>
    rw [e]
    refine forward_modify (fun _ => rfl) fun b hb hid => ?_
    have hne := hu a hp hf b hb hid
    show b.status.rank ≤ AlertStatus.acknowledged.rank
    cases hs : b.status with
    | resolved => exact absurd hs hne
    | open_ | acknowledged => decide

theorem unresolved_of_forward (hk : Keyed KpiAlert.id s.world.alerts)
    (hst : s.next cfg a = some s') (h : Forward s.world.alerts s'.world.alerts) :
    StillUnresolved s a := by
  cases a with
  | startCycle | task | acknowledge => trivial
  | request j ans =>
    intro a hp hf b hb hid hres
    have hk' : Keyed KpiAlert.id s'.world.alerts := (next_wrote hst).keyed hk
    simp only [ServerState.next, hp, acknowledgeStep, hf, Bool.false_eq_true, if_false] at hst
    cases hst
    have hm : b.acknowledge ans.now ∈
        modify KpiAlert.id a.id (KpiAlert.acknowledge ans.now) s.world.alerts :=
      mem_modify.mpr ⟨b, hb, if_pos hid⟩
    have := h.resolved hk' hb hm rfl hres
    cases this

end

/-- **The lifecycle moves forward** in every run that acknowledges no alert resolved since the
request read it; and a step that does so takes a status back. -/
theorem lifecycle_forward (cfg : AlertConfig) {table : List KpiAlert}
    (hk : Keyed KpiAlert.id table) :
    (∀ s as s', ((alertServer cfg table).restrict StillUnresolved).Reach s →
      ((alertServer cfg table).restrict StillUnresolved).Run s as s' →
        Forward s.world.alerts s'.world.alerts ∧
        ∀ a ∈ s.world.alerts, ∀ a' ∈ s'.world.alerts, a'.id = a.id → a.status = .resolved →
          a'.status = .resolved) ∧
    ∀ s a s', (alertServer cfg table).Reach s → (alertServer cfg table).step s a s' →
      (Forward s.world.alerts s'.world.alerts ↔ StillUnresolved s a) := by
  refine ⟨fun s as s' hs hrun => ?_, fun s a s' hs hst => ?_⟩
  · have hfwd : Forward s.world.alerts s'.world.alerts :=
      hrun.keeps (I := fun v : ServerState => Forward s.world.alerts v.world.alerts)
        (fun v a v' hv hst => hv.trans (forward_of_unresolved hst.2 hst.1)) (.refl _)
    have hk' : Keyed KpiAlert.id s'.world.alerts :=
      (alertServer_keyed hk).reach (Sys.Reach.of_restrict (hs.run hrun))
    exact ⟨hfwd, fun a ha a' ha' e hres => hfwd.resolved hk' ha ha' e hres⟩
  · exact ⟨unresolved_of_forward ((alertServer_keyed hk).reach hs) hst,
      forward_of_unresolved hst⟩

/-! ## Runs -/

namespace Sample

/-- The latency is high, and its alert is opened under the id 1. -/
def opened : List ServerAction :=
  .startCycle (kpis 800) :: (inOrder 3 1 0).map fun x => .task x.1 x.2

/-- The alert is acknowledged. -/
def seen : List ServerAction :=
  opened ++ [.acknowledge 1, .request 0 {}, .request 0 { now := 1 }]

/-- The latency is normal again, and the alert is resolved. -/
def settled : List ServerAction := [.startCycle (kpis 100), .task 0 {}, .task 0 { now := 2 }]

/-- The request for the alert has read it when the latency is normal: it is resolved, and the
request commits. -/
def lateRequest : List ServerAction :=
  opened ++ [.acknowledge 1, .request 0 {}, .startCycle (kpis 100), .task 0 {}, .task 0 { now := 1 }]

instance (s : ServerState) (a : ServerAction) : Decidable (StillUnresolved s a) :=
  match a with
  | .request j ans =>
    match h : s.requests[j]? with
    | some (.await (.commit a)) =>
      decidable_of_iff (ans.fails = false → ∀ b ∈ s.world.alerts, b.id = a.id → b.status ≠ .resolved)
        ⟨fun hc a' ha' => by cases h.symm.trans ha'; exact hc, fun hc => hc a h⟩
    | none | some (.done _) | some (.await (.select _)) | some (.await (.refresh _)) =>
      .isTrue fun a' ha' => by cases h.symm.trans ha'
  | .startCycle _ | .task _ _ | .acknowledge _ => .isTrue trivial

/-- An empty table, and no tasks. -/
def emptyServer : ServerState := { world := ⟨[], []⟩ }

end Sample

open Sample in
/-- The result for a run that opens an alert. -/
theorem one_open_alert_latency :
    ∃ s, (alertServer alertConfig []).Reach s ∧
      (openOf .latencyHigh s.world.alerts).map KpiAlert.id = [1] ∧
      ∃ r, scalarOneOrNone (openOf .latencyHigh s.world.alerts) = .ok r := by
  have hrun : (opened.foldlM (ServerState.next alertConfig) emptyServer).map (fun s =>
      (openOf .latencyHigh s.world.alerts).map KpiAlert.id) = some [1] := by decide +kernel
  obtain ⟨s, hs, h⟩ := Option.map_eq_some_iff.mp hrun
  have hreach : (alertServer alertConfig []).Reach s :=
    .foldlM (fun _ _ _ _ h => h) (.init ⟨rfl, rfl, rfl⟩) hs
  exact ⟨s, hreach, h, (one_open_alert alertConfig hreach .latencyHigh).2⟩

open Sample in
/-- The result for a run that acknowledges an alert and then resolves it. -/
theorem lifecycle_forward_latency :
    ∃ s as s', ((alertServer alertConfig []).restrict StillUnresolved).Reach s ∧
      ((alertServer alertConfig []).restrict StillUnresolved).Run s as s' ∧
      s.world.alerts.map KpiAlert.status = [.acknowledged] ∧
      s'.world.alerts.map KpiAlert.status = [.resolved] ∧
      Forward s.world.alerts s'.world.alerts := by
  let f (s : ServerState) (a : ServerAction) : Option ServerState :=
    if StillUnresolved s a then s.next alertConfig a else none
  have hf : ∀ s a s', f s a = some s' →
      ((alertServer alertConfig []).restrict StillUnresolved).step s a s' := by
    intro s a s' h
    obtain ⟨hu, h⟩ := Option.ite_none_right_eq_some.mp h
    exact ⟨hu, h⟩
  have hrun : (seen.foldlM f emptyServer).map (fun s => (s.world.alerts.map KpiAlert.status,
      (settled.foldlM f s).map fun s' => s'.world.alerts.map KpiAlert.status)) =
      some ([.acknowledged], some [.resolved]) := by decide +kernel
  obtain ⟨s, hs, h⟩ := Option.map_eq_some_iff.mp hrun
  obtain ⟨hack, h⟩ := Prod.mk.inj h
  obtain ⟨s', hs', hres⟩ := Option.map_eq_some_iff.mp h
  have hreach : ((alertServer alertConfig []).restrict StillUnresolved).Reach s :=
    .foldlM (fun s a _ s' h => hf s a s' h) (.init ⟨rfl, rfl, rfl⟩) hs
  have hrun' : ((alertServer alertConfig []).restrict StillUnresolved).Run s _ s' :=
    .foldlM (fun s a _ s' h => hf s a s' h) hs'
  have hk : Keyed KpiAlert.id ([] : List KpiAlert) := List.nodup_nil
  exact ⟨s, _, s', hreach, hrun', hack, hres,
    ((lifecycle_forward alertConfig hk).1 s _ s' hreach hrun').1⟩

open Sample in
/-- A request that read the alert as open commits after the cycle that resolved it. -/
theorem resolved_reopened :
    ∃ s a s', (alertServer alertConfig []).Reach s ∧ (alertServer alertConfig []).step s a s' ∧
      s.world.alerts.map KpiAlert.status = [.resolved] ∧
      s'.world.alerts.map KpiAlert.status = [.acknowledged] := by
  have hrun : (lateRequest.foldlM (ServerState.next alertConfig) emptyServer).map (fun s =>
      (s.world.alerts.map KpiAlert.status, (s.next alertConfig (.request 0 { now := 2 })).map
        fun s' => s'.world.alerts.map KpiAlert.status)) =
      some ([.resolved], some [.acknowledged]) := by decide +kernel
  obtain ⟨s, hs, h⟩ := Option.map_eq_some_iff.mp hrun
  obtain ⟨hres, h⟩ := Prod.mk.inj h
  obtain ⟨s', hs', hack⟩ := Option.map_eq_some_iff.mp h
  exact ⟨s, _, s', .foldlM (fun _ _ _ _ h => h) (.init ⟨rfl, rfl, rfl⟩) hs, hs', hres, hack⟩

end CryptoExchange
