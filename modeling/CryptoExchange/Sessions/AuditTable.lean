import CryptoExchange.Audit.Chain
import CryptoExchange.Lib.Spawn
import CryptoExchange.Regulator.Snapshot
import CryptoExchange.Sessions.Trail

/-!
# The audit table of the ledger

The handlers of the ledger, and the tasks in which `emit` writes what they report. The writers share
the table `audit_logs` and the lock, and no handler waits for them.

* `auditedSessions`: the handlers and the writers, a step of any of them at a time.
* `LogOk.subperm`, `LogOk.perm`: the rows are rows of events that were emitted, each of at most one.
* `table_true`: the table is one linked chain of true rows, and lacks only the events whose write is
  under way or has failed.
-/

namespace CryptoExchange

open Lib

variable {sha : List Char → String} {cfg : Config} {c : Column}

/-! ## Rows and events -/

section

variable {events : List Event} {v : AuditWorld}

/-- The rows, up to their order, are of different events. -/
theorem LogOk.subperm (h : LogOk sha events v) : (v.rows.map AuditLog.event).Subperm events := by
  have hnodup : (v.entries.map fun x => (x.row.event, x.writer)).Nodup :=
    .of_map Prod.snd (by rw [List.map_map]; exact h.writers)
  have hsub : v.entries.map (fun x => (x.row.event, x.writer)) ⊆ events.zipIdx := by
    intro y hy
    obtain ⟨x, hx, rfl⟩ := List.mem_map.mp hy
    exact List.mk_mem_zipIdx_iff_getElem?.mpr (h.recorded x hx)
  obtain ⟨l, hperm, hl⟩ := List.subperm_of_subset hnodup hsub
  refine ⟨l.map Prod.fst, ?_, ?_⟩
  · have hmap := hperm.map Prod.fst
    rw [List.map_map] at hmap
    rw [AuditWorld.rows, List.map_map]
    exact hmap
  · have hmap := hl.map Prod.fst
    rwa [List.zipIdx_map_fst] at hmap

/-- When every task has stored its row, the rows are all the events. -/
theorem LogOk.perm (h : LogOk sha events v) (hall : ∀ i, i < events.length → v.Wrote i) :
    (v.rows.map AuditLog.event).Perm events := by
  refine h.subperm.perm_of_length_le ?_
  have hwriters : List.range events.length ⊆ v.entries.map Entry.writer :=
    fun i hi => hall i (List.mem_range.mp hi)
  have hle := (List.subperm_of_subset List.nodup_range hwriters).length_le
  simpa [AuditWorld.rows] using hle

theorem writeStep_appends {w w' : AuditWorld} {ans : WriteAnswer} {p : WritePhase}
    {n : Next WritePhase Bool} (h : writeStep sha w ans p = (w', n)) : w.rows <+: w'.rows := by
  cases hp : p with
  | commit i e now prevHash rowHash =>
    simp only [hp, writeStep] at h
    split at h <;> cases h
    · exact List.prefix_rfl
    · exact ⟨_, (List.map_append ..).symm⟩
  | acquire i e | selectLatest i e | close i failed =>
    have hrows : (writeStep sha w ans p).1.rows = w.rows :=
      writeStep_rows fun _ _ _ _ _ => by simp [hp]
    rw [h] at hrows
    rw [hrows]

end

/-! ## The handlers with the writers -/

/-- The handlers with their world, and the writers with theirs. -/
abbrev Audited (cfg : Config) : Type :=
  Spawning World (Task cfg) (Except Failure Reply) AuditWorld WritePhase Bool

/-- Nothing is in the table, and nobody has the lock. -/
def EmptyLog (v : AuditWorld) : Prop := v.entries = [] ∧ v.lock = none

variable (sha cfg c) in
/-- The requests, each handled by a task of its own, and a writer for each event that they emit. -/
def auditedSessions (requests : List Request) : Sys :=
  spawning (Task.step cfg c) World.events (writeStep sha) .acquire
    (fun w ts => (sessions cfg c NoEvents requests).init (w, ts)) EmptyLog

theorem events_append : Appends (Task.step cfg c) World.events :=
  fun _ _ _ => (Task.step_extends rfl).events

section

variable {requests : List Request} {s s' : Audited cfg}

/-- The handlers do not see the writers. -/
theorem audited_sessions (h : (auditedSessions sha cfg c requests).Reach s) :
    (sessions cfg c NoEvents requests).Reach (s.world, s.machines) :=
  spawning_machines h

/-- The writers write the log of the events so far. -/
theorem audited_auditing (h : (auditedSessions sha cfg c requests).Reach s) :
    s.started.length = s.world.events.length ∧
      (auditing sha s.world.events).Reach (s.side, s.started) := by
  obtain ⟨hlen, hreach⟩ := spawning_started events_append h
  exact ⟨hlen, interleave_init (fun v ts hi => ⟨hi.1.1, hi.1.2, hi.2⟩) hreach⟩

/-- Rows are only appended. -/
theorem audited_rows {acts : List (ℕ × Answer ⊕ ℕ × WriteAnswer)}
    (h : (auditedSessions sha cfg c requests).Run s acts s') : s.side.rows <+: s'.side.rows := by
  refine h.keeps (I := fun x : Audited cfg => s.side.rows <+: x.side.rows) ?_ List.prefix_rfl
  rintro x (⟨i, a⟩ | ⟨i, b⟩) _ hx hst
  · obtain ⟨p, -, rfl⟩ := hst
    exact hx
  · obtain ⟨q, -, rfl⟩ := hst
    exact hx.trans (writeStep_appends rfl)

/-- The writers can all end while the handlers wait. -/
theorem audited_ends (h : (auditedSessions sha cfg c requests).Reach s) :
    ∃ acts s', (auditedSessions sha cfg c requests).Run s acts s' ∧ s'.world = s.world ∧
      s'.machines = s.machines ∧ ∀ t ∈ s'.started, t.isDone := by
  obtain ⟨-, hlog⟩ := audited_auditing h
  obtain ⟨bs, ⟨v, us⟩, hrun, hdone⟩ := auditing_ends sha s.world.events (C := fun _ _ _ => True)
    (fun _ _ => ⟨{}, trivial⟩) (hlog.restrict fun _ _ _ _ => trivial)
  exact ⟨_, _, spawning_side hrun.of_restrict s.world s.machines, rfl, rfl, hdone⟩

/-- The rows that report the order with this id as approved. -/
def approvals (rows : List AuditLog) (text : String) : ℕ :=
  rows.countP fun r => r.event.isApproval ∧ r.event.targetId = some text

theorem approvals_eq (rows : List AuditLog) (text : String) :
    approvals rows text =
      (rows.map AuditLog.event).countP fun e => e.isApproval ∧ e.targetId = some text := by
  rw [approvals, List.countP_map]
  rfl

/-- A call that replied with its order has reported it. -/
theorem reported_of_reply {s : World × List (Next (Task cfg) (Except Failure Reply))}
    (h : (sessions cfg c NoEvents requests).Reach s) {i : ℕ} {r : CreateOrder.Reply}
    (hr : s.2[i]? = some (.done (.ok (.order r)))) : reported s.1 (toString r.order.id) = 1 := by
  obtain ⟨req, -, hack⟩ := ((sessions_answered.unrestrict fun _ _ _ _ => trivial).reach h).2 i _ hr
  have hevent : ∃ e ∈ s.1.events, e.eventType = "RISK_CHECK_APPROVED" ∧
      e.targetId = toString r.order.id := by
    cases req with
    | createOrder payload =>
      obtain ⟨e, he, htype, -, htarget⟩ := OrderAcknowledged.event hack
      exact ⟨e, he, htype, htarget⟩
    | _ => exact hack.elim
  obtain ⟨e, he, htype, htarget⟩ := hevent
  have hpos : 0 < reported s.1 (toString r.order.id) := by
    refine List.countP_pos_iff.mpr ⟨e, he, decide_eq_true ⟨?_, htarget⟩⟩
    simp [Event.isApproval, htype]
  have hle := sessions_reported h (toString r.order.id)
  omega

/-- **The audit table.** In every state of every run, whichever calls and writes fail: the table is
one linked chain, every row has the hash of its own fields, is true of the ledger and stays in the
table, and no order has two rows that approve it. When no write has failed and none is under way,
the rows are the events, and every order that was replied has its row. The writers can always
end. -/
theorem table_true (h : (auditedSessions sha cfg c requests).Reach s) :
    (Linked (orderById s.side.rows) ∧ ∀ r ∈ s.side.rows, r.rowHash = some (r.hash sha)) ∧
    (∀ r ∈ s.side.rows, r.event.Traced s.world.db) ∧
    (∀ acts s', (auditedSessions sha cfg c requests).Run s acts s' → s.side.rows <+: s'.side.rows) ∧
    (s.side.rows.map AuditLog.event).Subperm s.world.events ∧
    (∀ text, approvals s.side.rows text ≤ 1) ∧
    ((∀ t ∈ s.started, t = .done true) →
      (s.side.rows.map AuditLog.event).Perm s.world.events ∧
      ∀ (i : ℕ) (r : CreateOrder.Reply), s.machines[i]? = some (.done (.ok (.order r))) →
        approvals s.side.rows (toString r.order.id) = 1) ∧
    ∃ acts s', (auditedSessions sha cfg c requests).Run s acts s' ∧ s'.world = s.world ∧
      s'.machines = s.machines ∧ ∀ t ∈ s'.started, t.isDone := by
  have hsessions := audited_sessions h
  obtain ⟨hlen, hreach⟩ := audited_auditing h
  obtain ⟨hlog, htasks⟩ := (auditing_ok sha s.world.events).reach hreach
  refine ⟨⟨?_, hlog.hashed⟩, fun r hr => ?_, fun _ _ hrun => audited_rows hrun, hlog.subperm,
    fun text => ?_, fun hdone => ?_, audited_ends h⟩
  · rw [orderById_eq hlog.ids]
    exact hlog.linked
  · exact (sessions_events hsessions).2 _ (hlog.subperm.subset (List.mem_map_of_mem hr))
  · rw [approvals_eq]
    exact (hlog.subperm.countP_le _).trans (sessions_reported hsessions text)
  · have hperm : (s.side.rows.map AuditLog.event).Perm s.world.events := by
      refine hlog.perm fun i hi => ?_
      have hi' : i < s.started.length := hlen ▸ hi
      have hok := htasks i _ (List.getElem?_eq_getElem hi')
      rw [hdone _ (List.getElem_mem hi')] at hok
      exact hok.2 rfl
    refine ⟨hperm, fun i r hr => ?_⟩
    rw [approvals_eq, hperm.countP_eq]
    exact reported_of_reply hsessions hr

end

/-! ## A liquidation that is reported twice -/

namespace Sample

/-- The calls of a writer that waits for nobody. -/
def writing (i : ℕ) (commit : WriteAnswer) : List (ℕ × Answer ⊕ ℕ × WriteAnswer) :=
  [{}, {}, commit, {}].map fun b => .inr (i, b)

/-- The order's row is written before the liquidation. Of the two rows for its end, the first one is
refused. -/
def writtenBetween : List (ℕ × Answer ⊕ ℕ × WriteAnswer) :=
  (accepted (dec 1 2) 1).map (fun a => .inl (0, a)) ++ writing 0 {} ++
    [1, 2, 1, 1, 2, 2].map (fun i => .inl (i, {})) ++ writing 1 { fails := true } ++ writing 2 {}

end Sample

open Sample in
/-- The order and its end have a row each. -/
theorem table_true_between :
    ∃ s, (auditedSessions Sample.sha config (.numeric 8) orderAndEvents).Reach s ∧
      s.side.rows.map AuditLog.eventType = ["RISK_CHECK_APPROVED", "POSITION_LIQUIDATED"] ∧
      Linked (orderById s.side.rows) ∧ ∀ r ∈ s.side.rows, r.event.Traced s.world.db := by
  let f := spawnExec (Task.step config (.numeric 8)) World.events (writeStep Sample.sha) .acquire
  let first : Audited config := {
    world := start 1000
    machines := orderAndEvents.map fun r => .await (r.start config)
    side := {}
    started := [] }
  have hrun : (writtenBetween.foldlM f first).map
      (fun s => s.side.rows.map AuditLog.eventType) =
      some ["RISK_CHECK_APPROVED", "POSITION_LIQUIDATED"] := by
    decide +kernel
  obtain ⟨s, hs, hrows⟩ := Option.map_eq_some_iff.mp hrun
  have hfirst : (auditedSessions Sample.sha config (.numeric 8) orderAndEvents).init first :=
    ⟨⟨(seeded (by decide) (by decide +kernel)).valid, rfl, rfl⟩, ⟨rfl, rfl⟩, rfl⟩
  have hreach : (auditedSessions Sample.sha config (.numeric 8) orderAndEvents).Reach s :=
    .foldlM (f := f) (fun _ _ _ _ h => spawnExec_step h) (.init hfirst) hs
  obtain ⟨⟨hlinked, -⟩, htraced, -⟩ := table_true hreach
  exact ⟨s, hreach, hrows, hlinked, htraced⟩

end CryptoExchange
