import CryptoExchange.Sessions.Replies
import Mathlib

/-!
# What the audit trail says

The handlers emit after their commit. In every state of a run, whatever they do at the same time, the
events are true of the tables.

* `Event.Traced`: an event that reports an approved order names an order of the ledger, with its user,
  symbol and leverage; one that reports a liquidation names a position that has ended.
* `Silent`: a step that reports neither. `Task.step_silent` lists the two steps that are not.
* `trail_traced`: every event of a run is traced, and no order is reported twice. A call reports its
  order once because the order's id is its own: a unit of work with a taken id is refused.

An ended position can be reported twice, when two liquidation events of a symbol are handled at the
same time.
-/

namespace CryptoExchange

open Lib Db

variable {cfg : Config} {c : Column} {db db' : Db} {w w' : World} {a : Answer}

/-- The data of an event. -/
def Event.Says (e : Event) (key : String) (value : Json) : Prop :=
  (key, value) ∈ e.eventData.getD []

structure Event.ReportsOrder (e : Event) (o : Order) : Prop where
  target : e.targetId = toString o.id
  actor : e.actorId = o.userId
  symbol : e.Says "symbol" (.str o.symbol)
  leverage : e.Says "leverage" (.int o.leverage)

structure Event.ReportsEnd (e : Event) (p : Position) : Prop where
  ended : p.liquidated = true
  target : e.targetId = toString p.id
  user : e.Says "user_id" (.int p.userId)
  symbol : e.Says "symbol" (.str p.symbol)

def Event.isApproval (e : Event) : Bool := e.eventType = "RISK_CHECK_APPROVED"

/-- The event is true of the tables. -/
structure Event.Traced (db : Db) (e : Event) : Prop where
  approved : e.isApproval → ∃ o ∈ db.orders, e.ReportsOrder o
  liquidated : e.eventType = "POSITION_LIQUIDATED" → ∃ p ∈ db.positions, e.ReportsEnd p

theorem Event.ReportsOrder.later {e : Event} {o o' : Order} (h : e.ReportsOrder o)
    (hl : o.Later o') : e.ReportsOrder o' := by
  rcases hl with rfl | ⟨-, rfl⟩
  · exact h
  · exact ⟨h.target, h.actor, h.symbol, h.leverage⟩

theorem Event.ReportsEnd.later {e : Event} {p p' : Position} (h : e.ReportsEnd p)
    (hl : p.Later p') : e.ReportsEnd p' where
  ended := hl.liquidated h.ended
  target := by rw [hl.id, h.target]
  user := by rw [hl.userId]; exact h.user
  symbol := by rw [hl.symbol]; exact h.symbol

theorem Event.Traced.later {e : Event} (h : e.Traced db) (hl : db.Later db') : e.Traced db' where
  approved he := by
    obtain ⟨o, ho, hr⟩ := h.approved he
    obtain ⟨o', ho', hlo⟩ := hl.orders.mem ho
    exact ⟨o', ho', hr.later hlo⟩
  liquidated he := by
    obtain ⟨p, hp, hr⟩ := h.liquidated he
    obtain ⟨p', hp', hlp⟩ := hl.positions.mem hp
    exact ⟨p', hp', hr.later hlp⟩

/-! ## What a step emits -/

/-- The step reports neither an order nor a liquidation. -/
def Silent (w w' : World) : Prop :=
  ∃ es, w'.events = w.events ++ es ∧
    ∀ e ∈ es, e.isApproval = false ∧ e.eventType ≠ "POSITION_LIQUIDATED"

theorem Silent.of_eq (h : w'.events = w.events) : Silent w w' :=
  ⟨[], by rw [h, List.append_nil], List.forall_mem_nil _⟩

theorem Silent.of_emit {e : Event} (h : w'.events = w.events ++ [e])
    (he : e.isApproval = false ∧ e.eventType ≠ "POSITION_LIQUIDATED") : Silent w w' :=
  ⟨[e], h, List.forall_mem_singleton.mpr he⟩

/-- What a step of `create_order` adds to the events. -/
theorem CreateOrder.step_silent {p : CreateOrder.Phase cfg}
    {n : After (CreateOrder.Phase cfg) CreateOrder.Reply}
    (h : CreateOrder.step cfg c w a p = (w', n)) : Silent w w' ∨
      ∃ s o, p = .refresh s ∧ findRow Order.id s.orderId w.db.orders = some o ∧
        w' = w.emit s.approvedEvent ∧ n = .done (.ok (s.result o)) := by
  cases CreateOrder.step_cases h with
  | refreshed found => exact .inr ⟨_, _, rfl, found, rfl, rfl⟩
  | committed hc =>
    obtain ⟨db', -, rfl⟩ := Option.map_eq_some_iff.mp hc
    exact .inl (.of_eq rfl)
  | @failed _ e _ =>
    left
    cases p with
    | selectUser payload =>
      simp only [CreateOrder.step] at h
      split at h
      · cases h; exact .of_eq rfl
      split at h <;> cases h <;> exact .of_eq rfl
    | getAccount payload user q | getPrice s | newOrder s =>
      simp only [CreateOrder.step] at h
      split at h <;> cases h
      exact .of_eq rfl
    | userExposure s current | redisSet s x =>
      simp only [CreateOrder.step] at h
      split at h <;> cases h
      exact .of_eq rfl
    | globalExposure s current u =>
      simp only [CreateOrder.step] at h
      split at h
      · cases h; exact .of_eq rfl
      unfold CreateOrder.check at h
      split at h
      · cases h; exact .of_eq rfl
      · cases h
        have htype : "RISK_CHECK_REJECTED" ≠ "POSITION_LIQUIDATED" := by decide
        exact .of_emit rfl ⟨rfl, htype⟩
      · cases h
    | flushOrder s reply =>
      simp only [CreateOrder.step] at h
      split at h
      · cases h; exact .of_eq rfl
      split at h <;> cases h
    | selectPosition s | commit s position =>
      simp only [CreateOrder.step] at h
      split at h
      · cases h; exact .of_eq rfl
      split at h <;> cases h
      exact .of_eq rfl
    | refresh s =>
      simp only [CreateOrder.step] at h
      split at h
      · split at h <;> cases h
        exact .of_eq rfl
      · cases h; exact .of_eq rfl
  | _ => exact .inl (.of_eq rfl)

/-- **Events.** A step is silent, or reports the order that its call has committed, or the positions
that it ends. -/
theorem Task.step_silent {t : Task cfg} {n : Next (Task cfg) (Except Failure Reply)}
    (h : Task.step cfg c w a t = (w', n)) : Silent w w' ∨
      (∃ s o r, t = .createOrder (.refresh s) ∧ findRow Order.id s.orderId w.db.orders = some o ∧
        w' = w.emit s.approvedEvent ∧ n = .done r) ∨
      ∃ s, t = .applyLiquidation (.commit s) ∧ w.db.flush c s.writes = some w'.db ∧
        w'.events = w.events ++ s.positions.map (ApplyLiquidation.liquidatedEvent cfg s.symbol) := by
  cases t with
  | createOrder p =>
    rcases hs : CreateOrder.step cfg c w a p with ⟨w₁, n₁⟩
    rw [Task.step, hs] at h
    cases h
    rcases CreateOrder.step_silent hs with hq | ⟨s, o, rfl, ho, hw, hn⟩
    · exact .inl hq
    · exact .inr (.inl ⟨s, o, _, rfl, ho, hw, by rw [hn]; rfl⟩)
  | closePosition p =>
    rcases hs : ClosePosition.step cfg c w a p with ⟨w₁, n₁⟩
    rw [Task.step, hs] at h
    cases h
    left
    cases ClosePosition.step_cases hs with
    | committed hc =>
      obtain ⟨db', -, rfl⟩ := Option.map_eq_some_iff.mp hc
      exact .of_eq rfl
    | _ => exact .of_eq rfl
  | cancelOrder p =>
    rcases hs : CancelOrder.step cfg c w a p with ⟨w₁, n₁⟩
    rw [Task.step, hs] at h
    cases h
    left
    cases CancelOrder.step_cases hs with
    | committed hc =>
      obtain ⟨db', -, rfl⟩ := Option.map_eq_some_iff.mp hc
      exact .of_eq rfl
    | _ => exact .of_eq rfl
  | syncBalance p =>
    rcases hs : SyncBalance.step cfg c w a p with ⟨w₁, n₁⟩
    rw [Task.step, hs] at h
    cases h
    left
    cases SyncBalance.step_cases hs with
    | committed hc =>
      obtain ⟨db', -, rfl⟩ := Option.map_eq_some_iff.mp hc
      exact .of_eq rfl
    | _ => exact .of_eq rfl
  | setMarginType p =>
    rcases hs : SetMarginType.step cfg c w a p with ⟨w₁, n₁⟩
    rw [Task.step, hs] at h
    cases h
    left
    cases SetMarginType.step_cases hs with
    | committed hc =>
      obtain ⟨db', -, rfl⟩ := Option.map_eq_some_iff.mp hc
      have htype : "ACCOUNT_MARGIN_TYPE_CHANGED" ≠ "POSITION_LIQUIDATED" := by decide
      exact .of_emit rfl ⟨rfl, htype⟩
    | _ => exact .of_eq rfl
  | applyLiquidation p =>
    rcases hs : ApplyLiquidation.step cfg c w a p with ⟨w₁, n₁⟩
    rw [Task.step, hs] at h
    cases h
    rcases ApplyLiquidation.step_events hs with e | ⟨s, w₁, rfl, hc, hdb, he⟩
    · exact .inl (.of_eq e)
    · exact .inr (.inr ⟨s, rfl, hdb ▸ World.commit_db hc, he⟩)

/-! ## What a handler will report -/

/-- The positions that the handler ends are in the tables. -/
structure ApplyLiquidation.Loop.Traced (db : Db) (s : ApplyLiquidation.Loop) : Prop where
  live : ∀ p ∈ s.positions, p.liquidated = false ∧ p.symbol = s.symbol
  rows : ∀ p ∈ s.positions, ∃ q ∈ db.positions, p.Later q

def Task.Traced (c : Column) (db : Db) : Task cfg → Prop
  | .createOrder (.refresh s) => ∃ o ∈ db.orders, (storeOrder c s.order).Later o
  | .cancelOrder p => p.Holds db
  | .applyLiquidation (.selectAccount s _ _) | .applyLiquidation (.commit s) => s.Traced db
  | _ => True

theorem ApplyLiquidation.Loop.Traced.later {s : ApplyLiquidation.Loop} (h : s.Traced db)
    (hl : db.Later db') : s.Traced db' where
  live := h.live
  rows p hp := by
    obtain ⟨q, hq, hpq⟩ := h.rows p hp
    obtain ⟨q', hq', hqq⟩ := hl.positions.mem hq
    exact ⟨q', hq', hpq.trans hqq⟩

theorem Task.Traced.later {t : Task cfg} (h : t.Traced c db) (hl : db.Later db') :
    t.Traced c db' := by
  cases t with
  | createOrder p =>
    cases p with
    | refresh s =>
      obtain ⟨o, ho, hlo⟩ := h
      obtain ⟨o', ho', hlo'⟩ := hl.orders.mem ho
      exact ⟨o', ho', hlo.trans hlo'⟩
    | _ => trivial
  | cancelOrder p =>
    have hh : (.cancelOrder p : Task cfg).Holds db := h
    exact hh.later hl
  | applyLiquidation p =>
    cases p with
    | selectPositions symbol => trivial
    | selectAccount s p todo | commit s => exact ApplyLiquidation.Loop.Traced.later h hl
  | _ => trivial

theorem Task.Traced.holds {t : Task cfg} (h : t.Traced c db) : t.Holds db := by
  cases t with
  | cancelOrder p => exact h
  | _ => trivial

theorem CreateOrder.traced_commit {s : CreateOrder.Placed cfg} {position : Option Position}
    {i t : ℕ} (h : db.flush c (s.writes position i t) = some db') :
    ∃ o ∈ db'.orders, (storeOrder c s.order).Later o := by
  have hmem : Write.insertOrder s.order ∈ s.writes position i t := by simp [Placed.writes]
  exact flush_order (CreateOrder.forward_writes s position i t) hmem h

/-- The commit of `_apply_liquidation` ends its positions. -/
theorem ApplyLiquidation.Loop.Traced.commit_ends {s : ApplyLiquidation.Loop} (hT : s.Traced db)
    (h : db.flush c s.writes = some db') {p : Position} (hp : p ∈ s.positions) :
    ∃ q ∈ db'.positions, p.Later q ∧ q.liquidated = true := by
  obtain ⟨q, hq, hpq⟩ := hT.rows p hp
  have hset : Write.setLiquidated q.id true ∈ s.writes := by
    refine List.mem_append_left _ (List.mem_flatMap.mpr ⟨p, hp, ?_⟩)
    simp [updatePosition, dirty, (hT.live p hp).1, hpq.id]
  have hforward : ∀ x ∈ s.writes, x.Forward := fun x hx => .inl (ApplyLiquidation.moves_writes s x hx)
  obtain ⟨q', hq', hl, hend⟩ := flush_liquidated hforward hset hq h
  exact ⟨q', hq', hpq.trans hl, hend⟩

/-- It ends every position that it reports. -/
theorem ApplyLiquidation.traced_commit {s : ApplyLiquidation.Loop} (hT : s.Traced db)
    (h : db.flush c s.writes = some db') {p : Position} (hp : p ∈ s.positions) :
    ∃ q ∈ db'.positions, (ApplyLiquidation.liquidatedEvent cfg s.symbol p).ReportsEnd q := by
  obtain ⟨q, hq, hlater, hend⟩ := hT.commit_ends h hp
  refine ⟨q, hq, hend, ?_, ?_, ?_⟩
  · rw [hlater.id]
    rfl
  · rw [hlater.userId]
    exact List.mem_cons_of_mem _ List.mem_cons_self
  · rw [hlater.symbol, (hT.live p hp).2]
    exact List.mem_cons_self

theorem CreateOrder.Placed.reports {s : CreateOrder.Placed cfg} {o : Order}
    (h : (storeOrder c s.order).Later o) : s.approvedEvent.ReportsOrder o := by
  have hstored : s.approvedEvent.ReportsOrder (storeOrder c s.order) := by
    refine ⟨rfl, rfl, List.mem_cons_self, ?_⟩
    exact List.mem_cons_of_mem _ (List.mem_cons_of_mem _ List.mem_cons_self)
  exact hstored.later h

/-- **Step.** The events stay true of the tables, and the new ones are. -/
theorem Task.step_traced {t : Task cfg} {n : Next (Task cfg) (Except Failure Reply)}
    (hv : w.db.Valid c) (hG : ∀ e ∈ w.events, e.Traced w.db) (hT : t.Traced c w.db)
    (h : Task.step cfg c w a t = (w', n)) : ∀ e ∈ w'.events, e.Traced w'.db := by
  have hl := Task.step_later hv hT.holds h
  have hold : ∀ e ∈ w.events, e.Traced w'.db := fun e he => (hG e he).later hl
  rcases Task.step_silent h with ⟨es, e, hes⟩ | ⟨s, o, r, rfl, ho, rfl, -⟩ | ⟨s, rfl, hf, e⟩
  · rw [e]
    refine List.forall_mem_append.mpr ⟨hold, fun x hx => ⟨fun hx' => ?_, fun hx' => ?_⟩⟩
    · rw [(hes x hx).1] at hx'
      cases hx'
    · exact absurd hx' (hes x hx).2
  · refine List.forall_mem_append.mpr ⟨hold, List.forall_mem_singleton.mpr ?_⟩
    obtain ⟨o', ho', hlo⟩ := hT
    have htype : "RISK_CHECK_APPROVED" ≠ "POSITION_LIQUIDATED" := by decide
    exact ⟨fun _ => ⟨o', ho', CreateOrder.Placed.reports hlo⟩, fun hx => absurd hx htype⟩
  · rw [e]
    refine List.forall_mem_append.mpr ⟨hold, fun x hx => ?_⟩
    obtain ⟨p, hp, rfl⟩ := List.mem_map.mp hx
    refine ⟨fun hx' => ?_, fun _ => ApplyLiquidation.traced_commit hT hf hp⟩
    have htype : "POSITION_LIQUIDATED" ≠ "RISK_CHECK_APPROVED" := by decide
    exact absurd (of_decide_eq_true hx') htype

theorem ApplyLiquidation.traced_next {p q : ApplyLiquidation.Phase} {w : World}
    (hT : (.applyLiquidation p : Task cfg).Traced c w.db)
    (h : ApplyLiquidation.step cfg c w a p = (w', .await q)) :
    (.applyLiquidation q : Task cfg).Traced c w.db := by
  have hturn : ∀ (s : ApplyLiquidation.Loop) (p : Position) (todo : List Position)
      (accounts : List ApplyLiquidation.Loaded), s.Traced w.db →
      (.applyLiquidation (s.turn p todo accounts) : Task cfg).Traced c w.db := by
    intro s p todo accounts hs
    unfold ApplyLiquidation.Loop.turn
    cases todo with
    | nil => exact ⟨hs.live, hs.rows⟩
    | cons q todo => exact ⟨hs.live, hs.rows⟩
  cases ApplyLiquidation.step_cases h with
  | @found symbol p ps select_eq =>
    have hmem : ∀ x ∈ p :: ps, x ∈ w'.db.positions ∧ x.symbol = symbol ∧ x.liquidated = false := by
      intro x hx
      rw [← select_eq] at hx
      exact mem_livePositionsIn.mp hx
    exact ⟨fun x hx => ⟨(hmem x hx).2.2, (hmem x hx).2.1⟩,
      fun x hx => ⟨x, (hmem x hx).1, .refl x⟩⟩
  | known => exact hturn _ _ _ _ hT
  | missing => exact hturn _ _ _ _ hT
  | loaded => exact hturn _ _ _ _ hT

theorem Task.traced_next {t t' : Task cfg} (hv : w.db.Valid c) (hT : t.Traced c w.db)
    (h : Task.step cfg c w a t = (w', .await t')) : t'.Traced c w'.db := by
  have hl := Task.step_later hv hT.holds h
  have hh := Task.step_holds hv hT.holds h
  cases t with
  | createOrder p =>
    rcases hs : CreateOrder.step cfg c w a p with ⟨w₁, n₁⟩
    rw [Task.step, hs] at h
    obtain ⟨rfl, hn⟩ := Prod.mk.inj h
    obtain ⟨q, rfl, rfl⟩ := Next.map_eq_await hn
    cases CreateOrder.step_cases hs with
    | committed hc => exact CreateOrder.traced_commit (World.commit_db hc)
    | _ => trivial
  | cancelOrder p =>
    obtain ⟨-, hn⟩ := Prod.mk.inj h
    obtain ⟨q, -, rfl⟩ := Next.map_eq_await hn
    exact hh
  | applyLiquidation p =>
    rcases hs : ApplyLiquidation.step cfg c w a p with ⟨w₁, n₁⟩
    rw [Task.step, hs] at h
    obtain ⟨rfl, hn⟩ := Prod.mk.inj h
    obtain ⟨q, rfl, rfl⟩ := Next.map_eq_await hn
    exact (ApplyLiquidation.traced_next hT hs).later hl
  | closePosition p | syncBalance p | setMarginType p =>
    obtain ⟨-, hn⟩ := Prod.mk.inj h
    obtain ⟨q, -, rfl⟩ := Next.map_eq_await hn
    trivial

/-- Nothing was emitted before the start. -/
def NoEvents (w : World) : Prop := w.events = []

theorem sessions_traced {requests : List Request} :
    ((sessions cfg c NoEvents requests).restrict (StepMeets fun _ _ _ => True)).Inductive fun s =>
      (s.1.db.Valid c ∧ ∀ e ∈ s.1.events, e.Traced s.1.db) ∧
        ∀ t, .await t ∈ s.2 → t.Traced c s.1.db := by
  refine interleave_inductive
    (G := fun w : World => w.db.Valid c ∧ ∀ e ∈ w.events, e.Traced w.db)
    (T := fun w (t : Task cfg) => t.Traced c w.db) (fun w ts hi => ⟨⟨hi.1, ?_⟩, fun t ht => ?_⟩)
    fun w a t w' n hG hT _ hs => ?_
  · rw [show w.events = [] from hi.2.1]
    exact List.forall_mem_nil _
  · rw [hi.2.2] at ht
    obtain ⟨r, -, e⟩ := List.mem_map.mp ht
    cases e
    cases r <;> trivial
  · have hl := Task.step_later hG.1 hT.holds hs
    refine ⟨⟨?_, Task.step_traced hG.1 hG.2 hT hs⟩,
      fun t' e => Task.traced_next hG.1 hT (e ▸ hs), fun q hq => hq.later hl⟩
    exact Task.step_valid hG.1 hs

/-! ## Once -/

/-- The events that report an order with this id. -/
def reported (w : World) (text : String) : ℕ :=
  w.events.countP fun e => e.isApproval ∧ e.targetId = some text

/-- The orders with this id. -/
def withId (db : Db) (text : String) : ℕ :=
  (db.orders.map Order.terms).countP fun x => toString x.orderId = text

/-- The call has committed the order with this id, and not reported it. -/
def toReport (text : String) : Next (Task cfg) (Except Failure Reply) → ℕ
  | .await (.createOrder (.refresh s)) => if toString s.orderId = text then 1 else 0
  | _ => 0

theorem Silent.reported (h : Silent w w') (text : String) : reported w' text = reported w text := by
  obtain ⟨es, e, hes⟩ := h
  have hzero : es.countP (fun e => e.isApproval ∧ e.targetId = some text) = 0 := by
    rw [List.countP_eq_zero]
    intro x hx
    simp [(hes x hx).1]
  rw [CryptoExchange.reported, e, List.countP_append, hzero]
  rfl

theorem withId_le {ws : List Write} (h : db.flush c ws = some db') (text : String) :
    withId db text + (ws.flatMap (Write.orderTerms c)).countP
      (fun x => toString x.orderId = text) = withId db' text := by
  rw [withId, withId, (flush_gained h).orders, List.countP_append]

/-- What a step does to the number of reports of an id: at most one more, by a call that held it, and
a call that comes to hold it has inserted an order with the id. -/
theorem Task.step_reported {t : Task cfg} {n : Next (Task cfg) (Except Failure Reply)}
    (h : Task.step cfg c w a t = (w', n)) (text : String) :
    reported w' text + toReport text n + withId w.db text ≤
      withId w'.db text + reported w text + toReport text (.await t) := by
  have hids : withId w.db text ≤ withId w'.db text := by
    rcases Task.step_db h with e | hf
    · rw [e]
    · have := withId_le hf text
      omega
  rcases Task.step_silent h with hq | ⟨s, o, r, rfl, ho, rfl, rfl⟩ | ⟨s, rfl, hf, e⟩
  · rw [hq.reported]
    by_cases hn : toReport text n = 0
    · omega
    · -- the call has committed its order
      obtain ⟨s, rfl⟩ : ∃ s, n = .await (.createOrder (.refresh s)) := by
        unfold toReport at hn
        split at hn
        · exact ⟨_, rfl⟩
        · contradiction
      cases t with
      | createOrder p =>
        rcases hs : CreateOrder.step cfg c w a p with ⟨w₁, n₁⟩
        rw [Task.step, hs] at h
        obtain ⟨rfl, hn₁⟩ := Prod.mk.inj h
        obtain ⟨q, rfl, e⟩ := Next.map_eq_await hn₁
        cases e
        cases CreateOrder.step_cases hs with
        | @committed _ position _ hc =>
          have hcount := withId_le (World.commit_db hc) text
          rw [CreateOrder.writes_flatMap (fun _ hw => hw.adds.1),
            OpenAccount.writes_flatMap fun _ => rfl] at hcount
          simp only [Write.orderTerms, ite_self, List.nil_append, List.append_nil,
            List.countP_singleton, decide_eq_true_eq] at hcount
          have hid : (storeOrder c s.order).terms.orderId = s.orderId := rfl
          rw [hid] at hcount
          simp only [toReport]
          omega
      | closePosition p | cancelOrder p | syncBalance p | setMarginType p | applyLiquidation p =>
        obtain ⟨-, hn₁⟩ := Prod.mk.inj h
        obtain ⟨q, -, e⟩ := Next.map_eq_await hn₁
        cases e
  · have hreport : reported (w.emit s.approvedEvent) text =
        reported w text + toReport text (.await (.createOrder (.refresh s))) := by
      simp only [reported, World.emit, List.countP_append, List.countP_singleton, toReport]
      congr 2
      simp [CreateOrder.Placed.approvedEvent, Event.isApproval]
    rw [hreport]
    simp only [toReport]
    omega
  · have hzero : (s.positions.map (ApplyLiquidation.liquidatedEvent cfg s.symbol)).countP
        (fun e => e.isApproval ∧ e.targetId = some text) = 0 := by
      rw [List.countP_eq_zero]
      intro x hx
      obtain ⟨p, -, rfl⟩ := List.mem_map.mp hx
      simp [Event.isApproval, ApplyLiquidation.liquidatedEvent]
    have hreport : reported w' text = reported w text := by
      rw [reported, e, List.countP_append, hzero]
      rfl
    have hnext : toReport text n = 0 := by
      obtain ⟨-, rfl⟩ := Prod.mk.inj h
      cases (ApplyLiquidation.step cfg c w a (.commit s)).2 <;> rfl
    rw [hreport, hnext]
    omega

/-- With unique ids, at most one order has an id. -/
theorem withId_le_one (hv : db.Valid c) (text : String) : withId db text ≤ 1 := by
  have hids : ((db.orders.map Order.id).map toString).Nodup :=
    List.Nodup.map (fun _ _ h => Nat.repr_injective h) hv.orders.keyed
  have hcount := List.nodup_iff_count_le_one.mp hids text
  rw [List.count, List.map_map, List.countP_map] at hcount
  rw [withId, List.countP_map]
  refine (List.countP_congr fun o _ => ?_).trans_le hcount
  simp only [Function.comp, decide_eq_true_eq, beq_iff_eq]
  exact Iff.rfl

theorem sessions_events {requests : List Request}
    {s : World × List (Next (Task cfg) (Except Failure Reply))}
    (h : (sessions cfg c NoEvents requests).Reach s) :
    s.1.db.Valid c ∧ ∀ e ∈ s.1.events, e.Traced s.1.db :=
  ((sessions_traced.unrestrict fun _ _ _ _ => trivial).reach h).1

/-- No order is reported twice. -/
theorem sessions_reported {requests : List Request}
    {s : World × List (Next (Task cfg) (Except Failure Reply))}
    (h : (sessions cfg c NoEvents requests).Reach s) (text : String) : reported s.1 text ≤ 1 := by
  have hI : ((sessions cfg c NoEvents requests).restrict (StepMeets fun _ _ _ => True)).Inductive
      fun s => (s.1.db.Valid c ∧ ∀ e ∈ s.1.events, e.Traced s.1.db) ∧
        ∀ t, .await t ∈ s.2 → t.Traced c s.1.db := sessions_traced
  have hcounted := interleave_counted (fun w => reported w text) (fun w => withId w.db text)
    (toReport text) hI (fun w ts hi => ?_) fun s _ i a t _ _ => ?_
  · have hle := ((hcounted.unrestrict fun _ _ _ _ => trivial).reach h).2
    have hone := withId_le_one (sessions_events h).1 text
    omega
  · -- at the start nothing was reported, and no call has committed
    obtain ⟨-, hevents, rfl⟩ := hi
    have hreported : reported w text = 0 := by
      rw [reported, show w.events = [] from hevents]
      rfl
    have hheld : ((requests.map fun r => (.await (r.start cfg) :
        Next (Task cfg) (Except Failure Reply))).map (toReport text)).sum = 0 := by
      refine List.sum_eq_zero fun x hx => ?_
      obtain ⟨n, hn, rfl⟩ := List.mem_map.mp hx
      obtain ⟨r, -, rfl⟩ := List.mem_map.mp hn
      cases r <;> rfl
    omega
  · exact Task.step_reported (Prod.eta (Task.step cfg c s.1 a t)) text

/-- **The audit trail.** In every state of a run, every event that reports an approved order or a
liquidation is true of the tables, and no order is reported as approved twice. -/
theorem trail_traced {requests : List Request}
    {s : World × List (Next (Task cfg) (Except Failure Reply))}
    (h : (sessions cfg c NoEvents requests).Reach s) :
    (∀ e ∈ s.1.events, e.Traced s.1.db) ∧ ∀ text, reported s.1 text ≤ 1 :=
  ⟨(sessions_events h).2, sessions_reported h⟩

/-! ## An order, reported and liquidated -/

namespace Sample

/-- An order of user 1, and two liquidation events for its symbol. -/
def orderAndEvents : List Request :=
  [.createOrder (order "BTCUSDT" .buy 1 0), .applyLiquidation "BTCUSDT",
    .applyLiquidation "BTCUSDT"]

/-- Both events read the position before either ends it. -/
def eventsTogether : List (ℕ × Answer) :=
  (accepted (dec 1 2) 1).map ((0, ·)) ++ [1, 2, 1, 1, 2, 2].map fun i => (i, ({} : Answer))

end Sample

open Sample in
/-- The order is reported once, and its liquidation twice. -/
theorem trail_traced_together :
    ∃ s, (sessions config (.numeric 8) NoEvents orderAndEvents).Reach s ∧
      s.1.events.map Event.eventType =
        ["RISK_CHECK_APPROVED", "POSITION_LIQUIDATED", "POSITION_LIQUIDATED"] ∧
      (∀ e ∈ s.1.events, e.Traced s.1.db) ∧ ∀ text, reported s.1 text ≤ 1 := by
  let f := exec (Task.step config (.numeric 8)) fun _ _ _ => True
  let start : World × List (Next (Task config) (Except Failure Reply)) :=
    (start 1000, orderAndEvents.map fun r => .await (r.start config))
  have hrun : (eventsTogether.foldlM f start).map (fun s => s.1.events.map Event.eventType) =
      some ["RISK_CHECK_APPROVED", "POSITION_LIQUIDATED", "POSITION_LIQUIDATED"] := by
    decide +kernel
  obtain ⟨s, hs, hevents⟩ := Option.map_eq_some_iff.mp hrun
  have hstart : (sessions config (.numeric 8) NoEvents orderAndEvents).init start :=
    ⟨(seeded (by decide) (by decide +kernel)).valid, rfl, rfl⟩
  have hreach : (sessions config (.numeric 8) NoEvents orderAndEvents).Reach s :=
    .foldlM (f := f) (fun _ _ _ _ h => (exec_step h).2) (.init hstart) hs
  exact ⟨s, hreach, hevents, trail_traced hreach⟩

end CryptoExchange
