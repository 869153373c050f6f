import CryptoExchange.Ledger.Failures
import CryptoExchange.Sessions.Positions
import CryptoExchange.Sessions.References

/-!
# What a reply acknowledges

A handler that replies with success has done what it says, and nothing that runs at the same time or
later undoes it. `Acknowledges` says what a reply stands for: what the exchange accepted, the rows
of the ledger and the event of the audit log. `reply_kept` shows it in every state of a run after
the reply.

* `Task.Sure`: what a handler has done in its phase for its request. All of it is kept by
  `World.Later`, so by the steps of the others.
* A canceled order stays as the reply shows it. The order of a reply of `create_order` may be canceled
  later. The reply of `sync_balance_from_exchange` promises no row: an account that could not be
  stored is returned as well.
-/

namespace CryptoExchange

open Lib Db

variable {cfg : Config} {c : Column} {db db' : Db} {w w' : World} {a : Answer}

/-! ## Rows that a unit of work leaves -/

/-- What a unit of work does up to one of its statements, at it, and after it. -/
theorem flush_at {ws : List Write} {x : Write} (hws : ∀ w ∈ ws, w.Forward) (hx : x ∈ ws)
    (h : db.flush c ws = some db') :
    ∃ db₁ db₂, db.Later db₁ ∧ db₁.write c x = some db₂ ∧ db₂.Later db' := by
  obtain ⟨before, after, rfl⟩ := List.append_of_mem hx
  obtain ⟨db₁, h₁, h₂⟩ := flush_append_some h
  obtain ⟨db₂, hw, h₃⟩ := Option.bind_eq_some_iff.mp h₂
  refine ⟨db₁, db₂, .flush (fun w hw => hws w ?_) h₁, hw, .flush (fun w hw => hws w ?_) h₃⟩
  · exact List.mem_append_left _ hw
  · exact List.mem_append_right _ (List.mem_cons_of_mem _ hw)

theorem flush_order {ws : List Write} {o : Order} (hws : ∀ w ∈ ws, w.Forward)
    (ho : .insertOrder o ∈ ws) (h : db.flush c ws = some db') :
    ∃ o' ∈ db'.orders, (storeOrder c o).Later o' := by
  obtain ⟨db₁, db₂, -, hw, hl⟩ := flush_at hws ho h
  rw [← flush_single] at hw
  obtain ⟨-, rfl⟩ := flush_insertOrder hw
  exact hl.orders.mem (List.mem_append_right _ (List.mem_singleton_self _))

theorem flush_position {ws : List Write} {p : Position} (hws : ∀ w ∈ ws, w.Forward)
    (hp : .insertPosition p ∈ ws) (h : db.flush c ws = some db') :
    ∃ p' ∈ db'.positions, (storePosition c p).Later p' := by
  obtain ⟨db₁, db₂, -, hw, hl⟩ := flush_at hws hp h
  rw [← flush_single] at hw
  obtain ⟨-, rfl⟩ := flush_insertPosition hw
  exact hl.positions.mem (List.mem_append_right _ (List.mem_singleton_self _))

theorem flush_trade {ws : List Write} {t : Trade} (hws : ∀ w ∈ ws, w.Forward)
    (ht : .insertTrade t ∈ ws) (h : db.flush c ws = some db') : storeTrade c t ∈ db'.trades := by
  obtain ⟨db₁, db₂, -, hw, hl⟩ := flush_at hws ht h
  rw [← flush_single] at hw
  obtain ⟨-, rfl⟩ := flush_insertTrade hw
  exact hl.trades.subset (List.mem_append_right _ (List.mem_singleton_self _))

theorem flush_liquidated {ws : List Write} {p : Position} (hws : ∀ w ∈ ws, w.Forward)
    (hx : .setLiquidated p.id true ∈ ws) (hp : p ∈ db.positions) (h : db.flush c ws = some db') :
    ∃ p' ∈ db'.positions, p.Later p' ∧ p'.liquidated = true := by
  obtain ⟨db₁, db₂, hl₁, hw, hl₂⟩ := flush_at hws hx h
  obtain ⟨p₁, hp₁, hl⟩ := hl₁.positions.mem hp
  cases hw
  have hmem : { p₁ with liquidated := true } ∈
      (db₁.modifyPosition p.id fun q => { q with liquidated := true }).positions :=
    mem_modify.mpr ⟨p₁, hp₁, if_pos hl.id⟩
  obtain ⟨p₂, hp₂, hl'⟩ := hl₂.positions.mem hmem
  refine ⟨p₂, hp₂, hl.trans ⟨hl'.id, hl'.accountId, hl'.userId, hl'.symbol, fun _ => ?_⟩,
    hl'.liquidated rfl⟩
  exact hl'.liquidated rfl

theorem Order.Later.terms {o o' : Order} (h : o.Later o') : o'.terms = o.terms := by
  rcases h with rfl | ⟨-, rfl⟩ <;> rfl

/-! ## What a reply stands for -/

/-- The order has its trade. -/
def HasTrade (db : Db) (o : Order) : Prop := ∃ t ∈ db.trades, t.terms = o.terms

/-- The user has a position in the symbol, live or not. -/
def HasPosition (db : Db) (userId : ℤ) (symbol : String) (ended : Bool) : Prop :=
  ∃ p ∈ db.positions, p.userId = userId ∧ p.symbol = symbol ∧ (ended = true → p.liquidated = true)

/-- A stored order of the user with the exchange's quantity. -/
structure OrderCreate.Booked (c : Column) (payload : OrderCreate) (o : Order) : Prop where
  userId : o.userId = payload.userId
  symbol : o.symbol = payload.symbol
  side : o.side = payload.side
  size : o.size = c.store payload.size.value

def OrderCreate.request (payload : OrderCreate) : ExchangeRequest :=
  .newOrder payload.symbol payload.side payload.orderType payload.size.value
    (payload.limitPrice.map PyFloat.value)

/-- The reply of an accepted order. -/
structure OrderAcknowledged (c : Column) (w : World) (payload : OrderCreate)
    (r : CreateOrder.Reply) : Prop where
  placed : payload.request ∈ w.placed
  order : ∃ o ∈ w.db.orders, r.order.Later o ∧ payload.Booked c o ∧ HasTrade w.db o
  position : HasPosition w.db payload.userId payload.symbol false
  event : ∃ e ∈ w.events, e.eventType = "RISK_CHECK_APPROVED" ∧ e.actorId = payload.userId ∧
    e.targetId = toString r.order.id

/-- The reply of a closed position: the closing order has the quantity that the exchange got. -/
structure CloseAcknowledged (cfg : Config) (c : Column) (w : World) (userId : ℤ) (symbol : String)
    (r : ClosePosition.Reply) : Prop where
  replied : r.symbol = cfg.upper symbol
  order : ∃ q, r.quantity = cfg.float q ∧ .reduceOnly (cfg.upper symbol) r.side q ∈ w.placed ∧
    ∃ o ∈ w.db.orders, o.userId = userId ∧ o.symbol = cfg.upper symbol ∧ o.side = r.side ∧
      o.size = q ∧ o.status = "FILLED" ∧ HasTrade w.db o
  position : HasPosition w.db userId (cfg.upper symbol) true

/-- What the reply to a request stands for. -/
def Acknowledges (cfg : Config) (c : Column) (w : World) : Request → Reply → Prop
  | .createOrder payload, .order r => OrderAcknowledged c w payload r
  | .closePosition userId symbol, .closed r => CloseAcknowledged cfg c w userId symbol r
  | .cancelOrder orderId userId, .canceled o =>
    o ∈ w.db.orders ∧ o.id = orderId ∧ o.userId = userId ∧ o.status = "CANCELED"
  | .syncBalance userId, .account account => account.userId = userId
  | .setMarginType r, .detail _ =>
    .changeMarginType (cfg.upper r.symbol) r.marginType ∈ w.placed ∧
      SetMarginType.changed cfg r ∈ w.events
  | .applyLiquidation _, .liquidated => True
  | _, _ => False

theorem HasPosition.later {userId : ℤ} {symbol : String} {ended : Bool}
    (h : HasPosition db userId symbol ended) (hl : db.Later db') :
    HasPosition db' userId symbol ended := by
  obtain ⟨p, hp, rfl, rfl, he⟩ := h
  obtain ⟨p', hp', hl'⟩ := hl.positions.mem hp
  exact ⟨p', hp', hl'.userId, hl'.symbol, fun e => hl'.liquidated (he e)⟩

theorem HasTrade.later {o o' : Order} (h : HasTrade db o) (hl : db.Later db') (ho : o.Later o') :
    HasTrade db' o' := by
  obtain ⟨t, ht, e⟩ := h
  exact ⟨t, hl.trades.subset ht, e.trans ho.terms.symm⟩

theorem Order.Later.booked {payload : OrderCreate} {o o' : Order} (h : o.Later o')
    (hb : payload.Booked c o) : payload.Booked c o' := by
  rcases h with rfl | ⟨-, rfl⟩
  · exact hb
  · exact ⟨hb.userId, hb.symbol, hb.side, hb.size⟩

/-- **What is acknowledged stays.** -/
theorem Acknowledges.later {req : Request} {r : Reply} (h : Acknowledges cfg c w req r)
    (hl : w.Later w') : Acknowledges cfg c w' req r := by
  have placed : ∀ {x}, x ∈ w.placed → x ∈ w'.placed := fun hx => hl.placed.subset hx
  have events : ∀ {x}, x ∈ w.events → x ∈ w'.events := fun hx => hl.events.subset hx
  cases req with
  | createOrder payload =>
    cases r with
    | order r =>
      obtain ⟨o, ho, hlo, hb, ht⟩ := h.order
      obtain ⟨o', ho', hlo'⟩ := hl.db.orders.mem ho
      obtain ⟨e, he, hevent⟩ := h.event
      exact ⟨placed h.placed, ⟨o', ho', hlo.trans hlo', hlo'.booked hb, ht.later hl.db hlo'⟩,
        h.position.later hl.db, ⟨e, events he, hevent⟩⟩
    | _ => exact h.elim
  | closePosition userId symbol =>
    cases r with
    | closed r =>
      obtain ⟨q, hq, hplaced, o, ho, hu, hs, hside, hsize, hfilled, ht⟩ := h.order
      obtain ⟨o', ho', hlo⟩ := hl.db.orders.mem ho
      obtain rfl := hlo.eq_of_final (.inl hfilled)
      exact ⟨h.replied, ⟨q, hq, placed hplaced, o', ho', hu, hs, hside, hsize, hfilled,
        ht.later hl.db hlo⟩, h.position.later hl.db⟩
    | _ => exact h.elim
  | cancelOrder orderId userId =>
    cases r with
    | canceled o =>
      obtain ⟨ho, hid, hu, hs⟩ := h
      obtain ⟨o', ho', hlo⟩ := hl.db.orders.mem ho
      obtain rfl := hlo.eq_of_final (.inr hs)
      exact ⟨ho', hid, hu, hs⟩
    | _ => exact h.elim
  | syncBalance userId =>
    cases r with
    | account account => exact h
    | _ => exact h.elim
  | setMarginType q =>
    cases r with
    | detail text => exact ⟨placed h.1, events h.2⟩
    | _ => exact h.elim
  | applyLiquidation symbol =>
    cases r with
    | liquidated => trivial
    | _ => exact h.elim

/-! ## What a handler has done in its phase -/

namespace CreateOrder

/-- The local variables of the call, and what the exchange has accepted from it. -/
structure Placed.Sure (w : World) (payload : OrderCreate) (s : Placed cfg) : Prop where
  payload_eq : s.payload = payload
  placed : payload.request ∈ w.placed

/-- The rows that the call has committed. -/
structure Placed.Stored (c : Column) (db : Db) (s : Placed cfg) : Prop where
  order : ∃ o ∈ db.orders, (storeOrder c s.order).Later o ∧ HasTrade db o
  position : HasPosition db s.payload.userId s.payload.symbol false

def Phase.Sure (c : Column) (w : World) (payload : OrderCreate) : Phase cfg → Prop
  | .selectUser p | .getAccount p _ _ => p = payload
  | .getPrice s | .userExposure s _ | .globalExposure s _ _ => s.payload = payload
  | .newOrder s => s.payload = payload
  | .flushOrder s _ => s.payload = payload ∧ payload.request ∈ w.placed
  | .redisSet s _ | .selectPosition s => s.Sure w payload
  | .commit s position => s.Sure w payload ∧
    (position.isSome → HasPosition w.db s.payload.userId s.payload.symbol false)
  | .refresh s => s.Sure w payload ∧ s.Stored c w.db

theorem Phase.Sure.later {payload : OrderCreate} {p : Phase cfg} (h : p.Sure c w payload)
    (hl : w.Later w') : p.Sure c w' payload := by
  have hsure : ∀ {s : Placed cfg}, s.Sure w payload → s.Sure w' payload := fun hs =>
    ⟨hs.payload_eq, hl.placed.subset hs.placed⟩
  cases p with
  | flushOrder s reply => exact ⟨h.1, hl.placed.subset h.2⟩
  | redisSet s x | selectPosition s => exact hsure h
  | commit s position => exact ⟨hsure h.1, fun e => (h.2 e).later hl.db⟩
  | refresh s =>
    obtain ⟨o, ho, hlo, ht⟩ := h.2.order
    obtain ⟨o', ho', hlo'⟩ := hl.db.orders.mem ho
    exact ⟨hsure h.1, ⟨o', ho', hlo.trans hlo', ht.later hl.db hlo'⟩, h.2.position.later hl.db⟩
  | _ => exact h

theorem stored_commit {s : Placed cfg} {position : Option Position} {i t : ℕ}
    (hp : position.isSome → HasPosition db s.payload.userId s.payload.symbol false)
    (h : db.flush c (s.writes position i t) = some db') : s.Stored c db' := by
  have hforward := forward_writes s position i t
  have hmem : Write.insertOrder s.order ∈ s.writes position i t ∧
      Write.insertTrade (s.trade t) ∈ s.writes position i t := by
    simp [Placed.writes]
  obtain ⟨o, ho, hlo⟩ := flush_order hforward hmem.1 h
  have ht : storeTrade c (s.trade t) ∈ db'.trades := flush_trade hforward hmem.2 h
  refine ⟨⟨o, ho, hlo, storeTrade c (s.trade t), ht, hlo.terms.symm⟩, ?_⟩
  cases position with
  | none =>
    have hinsert : Write.insertPosition (s.position i) ∈ s.writes none i t := by
      simp [Placed.writes]
    obtain ⟨p, hp, hlp⟩ := flush_position hforward hinsert h
    exact ⟨p, hp, hlp.userId, hlp.symbol, fun e => by cases e⟩
  | some p => exact (hp rfl).later (.flush hforward h)

theorem sure_next {payload : OrderCreate} {p q : Phase cfg} (hT : p.Sure c w payload)
    (hs : step cfg c w a p = (w', .await q)) : q.Sure c w' payload := by
  cases step_cases hs with
  | @accepted s reply reply_eq =>
    obtain rfl := hT
    exact ⟨rfl, List.mem_append_right _ (List.mem_singleton_self _)⟩
  | flushed | flushedOnly => exact ⟨hT.1, hT.2⟩
  | cached => exact ⟨hT.payload_eq, hT.placed⟩
  | @positioned s position found =>
    refine ⟨hT, fun e => ?_⟩
    obtain ⟨p, rfl⟩ := Option.isSome_iff_exists.mp e
    have hmem : p ∈ w.db.livePositionsOf s.payload.userId s.payload.symbol :=
      scalarOneOrNone_some found ▸ List.mem_cons_self
    obtain ⟨hp, hu, hsym, -⟩ := mem_livePositionsOf.mp hmem
    exact ⟨p, hp, hu, hsym, fun e => by cases e⟩
  | @committed s position w' commit_eq =>
    have hl := World.extends_commit commit_eq
    exact ⟨⟨hT.1.payload_eq, hl.placed.subset hT.1.placed⟩,
      stored_commit hT.2 (World.commit_db commit_eq)⟩
  | _ => exact hT

/-- The reply of `create_order`. -/
theorem sure_done {payload : OrderCreate} {p : Phase cfg} {r : Reply} (hv : w.db.Valid c)
    (hT : p.Sure c w payload) (hs : step cfg c w a p = (w', .done (.ok r))) :
    OrderAcknowledged c w' payload r := by
  cases step_cases hs with
  | @refreshed s o found =>
    obtain ⟨⟨rfl, hplaced⟩, ⟨o', ho', hlo, ht⟩, hposition⟩ := hT
    obtain ⟨ho, hid⟩ := findRow_mem found
    obtain rfl := hv.orders.keyed.eq_of_key ho ho' (hid.trans hlo.id.symm)
    refine ⟨hplaced, ⟨o, ho, .refl o, hlo.booked ⟨rfl, rfl, rfl, rfl⟩, ht⟩, hposition, ?_⟩
    refine ⟨s.approvedEvent, List.mem_append_right _ (List.mem_singleton_self _), rfl, rfl, ?_⟩
    exact congrArg (fun n : ℕ => some (toString n)) hid.symm

end CreateOrder

namespace ClosePosition

/-- The position is as the call read it, or has moved on; its size fits the column. -/
structure Loaded.Sure (cfg : Config) (c : Column) (db : Db) (userId : ℤ) (symbol : String)
    (s : Loaded) : Prop where
  userId_eq : s.userId = userId
  symbol_eq : s.symbol = cfg.upper symbol
  owner : s.position.userId = userId ∧ s.position.symbol = cfg.upper symbol
  live : s.position.liquidated = false
  stored : c.Holds s.position.quantity
  row : ∃ p ∈ db.positions, s.position.Later p

def Phase.Sure (cfg : Config) (c : Column) (w : World) (userId : ℤ) (symbol : String) :
    Phase → Prop
  | .selectPosition u s => u = userId ∧ s = symbol
  | .getPrice s | .reduceOnly s _ => s.Sure cfg c w.db userId symbol
  | .selectAccount s _ | .flushOrder s _ _ | .commit s _ _ _ =>
    s.Sure cfg c w.db userId symbol ∧ s.request ∈ w.placed

theorem Phase.Sure.later {userId : ℤ} {symbol : String} {p : Phase}
    (h : p.Sure cfg c w userId symbol) (hl : w.Later w') : p.Sure cfg c w' userId symbol := by
  have hsure : ∀ {s : Loaded}, s.Sure cfg c w.db userId symbol →
      s.Sure cfg c w'.db userId symbol := by
    intro s hs
    obtain ⟨p, hp, hlp⟩ := hs.row
    obtain ⟨p', hp', hlp'⟩ := hl.db.positions.mem hp
    exact { hs with row := ⟨p', hp', hlp.trans hlp'⟩ }
  cases p with
  | selectPosition u s => exact h
  | getPrice s | reduceOnly s closePrice => exact hsure h
  | selectAccount s closePrice | flushOrder s closePrice account
  | commit s closePrice account orderId => exact ⟨hsure h.1, hl.placed.subset h.2⟩

theorem sure_next {userId : ℤ} {symbol : String} {p q : Phase} (hv : w.db.Valid c)
    (hT : p.Sure cfg c w userId symbol) (hs : step cfg c w a p = (w', .await q)) :
    q.Sure cfg c w' userId symbol := by
  cases step_cases hs with
  | @found u sym position select_eq =>
    obtain ⟨rfl, rfl⟩ := hT
    have hmem : position ∈ w.db.livePositionsOf u (cfg.upper sym) :=
      scalarOneOrNone_some select_eq ▸ List.mem_cons_self
    obtain ⟨hp, hu, hsym, hlive⟩ := mem_livePositionsOf.mp hmem
    exact ⟨rfl, rfl, ⟨hu, hsym⟩, hlive, (hv.positions.rows position hp).1, position, hp, .refl _⟩
  | reduced => exact ⟨⟨hT.userId_eq, hT.symbol_eq, hT.owner, hT.live, hT.stored, hT.row⟩,
      List.mem_append_right _ (List.mem_singleton_self _)⟩
  | _ => exact hT

theorem step_ok {p : Phase} {r : Reply} (h : step cfg c w a p = (w', .done (.ok r))) :
    ∃ s closePrice account orderId, p = .commit s closePrice account orderId ∧
      w.commit c (s.writes closePrice account orderId a.tradeId) = some w' ∧
      r = { symbol := s.symbol, side := s.closeSide, quantity := cfg.float s.quantity,
            price := cfg.float closePrice.value } := by
  cases p with
  | commit s closePrice account orderId =>
    simp only [step] at h
    split at h
    · cases h
    split at h
    · cases h
    · rename_i hc
      cases h
      exact ⟨s, closePrice, account, orderId, rfl, hc, rfl⟩
  | selectPosition u sym | flushOrder s closePrice account | getPrice s | reduceOnly s closePrice
  | selectAccount s closePrice => cases step_cases h

/-- The reply of `close_position`. -/
theorem sure_done {userId : ℤ} {symbol : String} {p : Phase} {r : Reply}
    (hT : p.Sure cfg c w userId symbol) (hs : step cfg c w a p = (w', .done (.ok r))) :
    CloseAcknowledged cfg c w' userId symbol r := by
  obtain ⟨s, closePrice, account, orderId, rfl, hc, rfl⟩ := step_ok hs
  obtain ⟨hsure, hplaced⟩ := hT
  have hflush := World.commit_db hc
  have hforward := forward_writes s closePrice account orderId a.tradeId
  have hmem : Write.insertOrder (s.order orderId closePrice) ∈
      s.writes closePrice account orderId a.tradeId ∧
        Write.insertTrade (s.trade a.tradeId orderId closePrice) ∈
          s.writes closePrice account orderId a.tradeId := by
    simp [Loaded.writes]
  have hended : Write.setLiquidated s.position.id true ∈
      s.writes closePrice account orderId a.tradeId := by
    simp [Loaded.writes, Loaded.closing, updatePosition, dirty, hsure.live]
  obtain ⟨o, ho, hlo⟩ := flush_order hforward hmem.1 hflush
  obtain rfl := hlo.eq_of_final (.inl rfl)
  have hsize : c.store s.quantity = s.quantity := hsure.stored.abs.store
  have htrade : HasTrade w'.db (storeOrder c (s.order orderId closePrice)) :=
    ⟨_, flush_trade hforward hmem.2 hflush, rfl⟩
  have hrequest : s.request ∈ w'.placed := (World.extends_commit hc).placed.subset hplaced
  rw [Loaded.request, hsure.symbol_eq] at hrequest
  obtain ⟨p, hp, hlp⟩ := hsure.row
  have hid : Write.setLiquidated p.id true ∈ s.writes closePrice account orderId a.tradeId :=
    hlp.id ▸ hended
  obtain ⟨p', hp', hlp', hliq⟩ := flush_liquidated hforward hid hp hflush
  have hlater := hlp.trans hlp'
  exact ⟨hsure.symbol_eq, ⟨s.quantity, rfl, hrequest, _, ho, hsure.userId_eq, hsure.symbol_eq, rfl,
    hsize, rfl, htrade⟩, p', hp', hlater.userId.trans hsure.owner.1,
    hlater.symbol.trans hsure.owner.2, fun _ => hliq⟩

end ClosePosition

namespace CancelOrder

/-- The order that the call found, and that it is canceled after the commit. -/
def Phase.Sure (db : Db) (orderId : ℕ) (userId : ℤ) : Phase → Prop
  | .selectOrder i u => i = orderId ∧ u = userId
  | .redisGet order | .cancelOrder order _ | .commit order =>
    CancelOrder.Holds db order ∧ order.id = orderId ∧ order.userId = userId
  | .refresh order => CancelOrder.Holds db order ∧ order.id = orderId ∧
    ∃ o ∈ db.orders, o.id = orderId ∧ o.userId = userId ∧ o.status = "CANCELED"

theorem Phase.Sure.holds {orderId : ℕ} {userId : ℤ} {p : Phase} (h : p.Sure db orderId userId) :
    p.Holds db := by
  cases p with
  | selectOrder i u => trivial
  | redisGet order | cancelOrder order x | commit order | refresh order => exact h.1

theorem Phase.Sure.later {orderId : ℕ} {userId : ℤ} {p : Phase} (h : p.Sure db orderId userId)
    (hl : db.Later db') : p.Sure db' orderId userId := by
  cases p with
  | selectOrder i u => exact h
  | redisGet order | cancelOrder order x | commit order => exact ⟨h.1.later hl, h.2⟩
  | refresh order =>
    obtain ⟨hh, hid, o, ho, hrow⟩ := h
    obtain ⟨o', ho', hlo⟩ := hl.orders.mem ho
    obtain rfl := hlo.eq_of_final (.inr hrow.2.2)
    exact ⟨hh.later hl, hid, o', ho', hrow⟩

/-- The commit cancels the row. -/
theorem canceled_commit {order : Order} (h : Holds db order)
    (hf : db.flush c (updateOrder order (canceled order)) = some db') :
    ∃ o ∈ db'.orders, o.id = order.id ∧ o.userId = order.userId ∧ o.status = "CANCELED" := by
  obtain ⟨-, o, ho, hlo⟩ := h
  rw [flush_updateOrder] at hf
  cases hf
  refine ⟨_, mem_modify.mpr ⟨o, ho, if_pos hlo.id⟩, hlo.id, congrArg Terms.userId hlo.terms, ?_⟩
  show patch id order.status "CANCELED" o.status = "CANCELED"
  unfold patch
  split
  · -- the order was canceled when the call read it
    rename_i e
    rw [hlo.eq_of_final (.inr e.symm), e]
  · rfl

theorem sure_next {orderId : ℕ} {userId : ℤ} {p q : Phase} (hv : w.db.Valid c)
    (hT : p.Sure w.db orderId userId) (hs : step cfg c w a p = (w', .await q)) :
    q.Sure w'.db orderId userId := by
  cases step_cases hs with
  | @found i u order select_eq status_ne =>
    obtain ⟨rfl, rfl⟩ := hT
    have hmem : order ∈ w.db.orders.filter fun o => o.id = i ∧ o.userId = u :=
      scalarOneOrNone_some select_eq ▸ List.mem_cons_self
    obtain ⟨ho, hrow⟩ := List.mem_filter.mp hmem
    have hrow : order.id = i ∧ order.userId = u := by simpa using hrow
    exact ⟨⟨status_ne, order, ho, .refl _⟩, hrow⟩
  | @committed order w' commit_eq =>
    have hf := World.commit_db commit_eq
    obtain ⟨hh, rfl, rfl⟩ := hT
    exact ⟨hh.later (hh.commit hv hf), rfl, canceled_commit hh hf⟩
  | _ => exact hT

/-- The reply of `cancel_order`. -/
theorem sure_done {orderId : ℕ} {userId : ℤ} {p : Phase} {o : Order} (hv : w.db.Valid c)
    (hT : p.Sure w.db orderId userId) (hs : step cfg c w a p = (w', .done (.ok o))) :
    o ∈ w'.db.orders ∧ o.id = orderId ∧ o.userId = userId ∧ o.status = "CANCELED" := by
  cases step_cases hs with
  | refreshed find_eq =>
    obtain ⟨-, hid, o', ho', hrow⟩ := hT
    obtain ⟨ho, e⟩ := findRow_mem find_eq
    obtain rfl := hv.orders.keyed.eq_of_key ho ho' (e.trans (hid.trans hrow.1.symm))
    exact ⟨ho, hrow⟩

end CancelOrder

namespace SyncBalance

def Phase.Sure (db : Db) (userId : ℤ) : Phase → Prop
  | .getAccount u _ => u = userId
  | .wallet o | .commit o _ => o.Owned db userId
  | .refresh o => o.account.userId = userId ∧ o.account.owner ∈ db.accounts.map Account.owner

theorem Phase.Sure.kept {userId : ℤ} {p : Phase} (h : p.Sure db userId) (hk : db.Kept db') :
    p.Sure db' userId := by
  cases p with
  | getAccount u q => exact h
  | wallet o | commit o balance => exact ⟨h.userId, h.account.imp_right fun hm => hk.accounts hm⟩
  | refresh o => exact ⟨h.1, hk.accounts h.2⟩

theorem sure_next {userId : ℤ} {p q : Phase} (hT : p.Sure w.db userId)
    (hs : step cfg c w a p = (w', .await q)) : q.Sure w'.db userId := by
  cases step_cases hs with
  | account => exact hT
  | opened step_eq =>
    obtain rfl := hT
    exact GetAccount.step_owned step_eq
  | read => exact hT
  | @committed o balance w' commit_eq =>
    have hgained := flush_gained (World.commit_db commit_eq)
    have hopened : o.writes ⊆ writes o balance := List.subset_append_left _ _
    have hmem := hT.mem hopened
    rw [← hgained.accounts] at hmem
    refine ⟨hT.userId, ?_⟩
    show (o.account.id, o.account.userId) ∈ _
    rw [hT.userId]
    exact hmem

/-- The reply of `sync_balance_from_exchange`. -/
theorem sure_done {userId : ℤ} {p : Phase} {account : Account} (hv : w.db.Valid c)
    (hT : p.Sure w.db userId) (hs : step cfg c w a p = (w', .done (.ok account))) :
    account.userId = userId := by
  cases step_cases hs with
  | unconfigured step_eq =>
    obtain rfl := hT
    exact (GetAccount.step_owned step_eq).userId
  | unread | unstored => exact hT.userId
  | refreshed row =>
    rcases row with rfl | find_eq
    · exact hT.1
    · obtain ⟨ha, hid⟩ := findRow_mem find_eq
      obtain ⟨b, hb, e⟩ := List.mem_map.mp hT.2
      obtain rfl := hv.accounts.keyed.eq_of_key ha hb
        (hid.trans (congrArg Prod.fst e).symm)
      exact (congrArg Prod.snd e).trans hT.1

end SyncBalance

namespace SetMarginType

def Phase.Sure (cfg : Config) (w : World) (r : Request) : Phase → Prop
  | .changeMarginType q => q = r
  | .selectPositions q | .commit q _ =>
    q = r ∧ .changeMarginType (cfg.upper r.symbol) r.marginType ∈ w.placed

theorem Phase.Sure.later {r : Request} {p : Phase} (h : p.Sure cfg w r) (hl : w.Later w') :
    p.Sure cfg w' r := by
  cases p with
  | changeMarginType q => exact h
  | selectPositions q | commit q positions => exact ⟨h.1, hl.placed.subset h.2⟩

theorem sure_next {r : Request} {p q : Phase} (hT : p.Sure cfg w r)
    (hs : step cfg c w a p = (w', .await q)) : q.Sure cfg w' r := by
  cases step_cases hs with
  | accepted =>
    obtain rfl := hT
    exact ⟨rfl, List.mem_append_right _ (List.mem_singleton_self _)⟩
  | selected => exact hT

/-- The reply of `set_margin_type`. -/
theorem sure_done {r : Request} {p : Phase} {text : String} (hT : p.Sure cfg w r)
    (hs : step cfg c w a p = (w', .done (.ok text))) :
    .changeMarginType (cfg.upper r.symbol) r.marginType ∈ w'.placed ∧
      changed cfg r ∈ w'.events := by
  cases step_cases hs with
  | committed commit_eq =>
    obtain ⟨rfl, hplaced⟩ := hT
    exact ⟨(World.extends_commit commit_eq).placed.subset hplaced,
      List.mem_append_right _ (List.mem_singleton_self _)⟩

end SetMarginType

/-! ## All handlers -/

/-- What a handler has done for its request. -/
def Task.Sure (c : Column) (w : World) : Request → Task cfg → Prop
  | .createOrder payload, .createOrder p => p.Sure c w payload
  | .closePosition userId symbol, .closePosition p => p.Sure cfg c w userId symbol
  | .cancelOrder orderId userId, .cancelOrder p => p.Sure w.db orderId userId
  | .syncBalance userId, .syncBalance p => p.Sure w.db userId
  | .setMarginType r, .setMarginType p => p.Sure cfg w r
  | .applyLiquidation _, .applyLiquidation _ => True
  | _, _ => False

/-- A handler that goes on has done its part, and one that replied has done it all. -/
def Answered (cfg : Config) (c : Column) (w : World) (req : Request) :
    Next (Task cfg) (Except Failure Reply) → Prop
  | .await t => t.Sure c w req
  | .done (.ok r) => Acknowledges cfg c w req r
  | .done (.error _) => True

theorem Task.Sure.holds {req : Request} {t : Task cfg} (h : t.Sure c w req) : t.Holds w.db := by
  cases t with
  | cancelOrder p =>
    cases req with
    | cancelOrder orderId userId => exact CancelOrder.Phase.Sure.holds h
    | _ => exact h.elim
  | _ => trivial

theorem Answered.later {req : Request} {n : Next (Task cfg) (Except Failure Reply)}
    (h : Answered cfg c w req n) (hl : w.Later w') (hk : w.db.Kept w'.db) : Answered cfg c w' req n := by
  cases n with
  | done r =>
    cases r with
    | error e => trivial
    | ok r => exact Acknowledges.later h hl
  | await t =>
    cases req with
    | createOrder payload =>
      cases t with
      | createOrder p => exact CreateOrder.Phase.Sure.later h hl
      | _ => exact h.elim
    | closePosition userId symbol =>
      cases t with
      | closePosition p => exact ClosePosition.Phase.Sure.later h hl
      | _ => exact h.elim
    | cancelOrder orderId userId =>
      cases t with
      | cancelOrder p => exact CancelOrder.Phase.Sure.later h hl.db
      | _ => exact h.elim
    | syncBalance userId =>
      cases t with
      | syncBalance p => exact SyncBalance.Phase.Sure.kept h hk
      | _ => exact h.elim
    | setMarginType r =>
      cases t with
      | setMarginType p => exact SetMarginType.Phase.Sure.later h hl
      | _ => exact h.elim
    | applyLiquidation symbol =>
      cases t with
      | applyLiquidation p => trivial
      | _ => exact h.elim

/-- A step of a handler that is lifted: what it gives for the request. -/
theorem answered_lift {P R : Type} {f : P → Task cfg} {g : R → Reply} {req : Request} {n : After P R}
    (hnext : ∀ q, n = .await q → (f q).Sure c w req)
    (hdone : ∀ r, n = .done (.ok r) → Acknowledges cfg c w req (g r)) :
    Answered cfg c w req (n.map f (Except.map g)) := by
  cases n with
  | await q => exact hnext q rfl
  | done r =>
    cases r with
    | error e => trivial
    | ok r => exact hdone r rfl

/-- **Step.** What a handler has done for its request, after a step of it. -/
theorem Task.step_answered {req : Request} {t : Task cfg} {n : Next (Task cfg) (Except Failure Reply)}
    (hv : w.db.Valid c) (hT : t.Sure c w req) (hs : Task.step cfg c w a t = (w', n)) :
    Answered cfg c w' req n := by
  cases req with
  | createOrder payload =>
    cases t with
    | createOrder p =>
      cases hs
      exact answered_lift (fun q e => CreateOrder.sure_next hT (Prod.ext rfl e))
        fun r e => CreateOrder.sure_done hv hT (Prod.ext rfl e)
    | _ => exact hT.elim
  | closePosition userId symbol =>
    cases t with
    | closePosition p =>
      cases hs
      exact answered_lift (fun q e => ClosePosition.sure_next hv hT (Prod.ext rfl e))
        fun r e => ClosePosition.sure_done hT (Prod.ext rfl e)
    | _ => exact hT.elim
  | cancelOrder orderId userId =>
    cases t with
    | cancelOrder p =>
      cases hs
      exact answered_lift (fun q e => CancelOrder.sure_next hv hT (Prod.ext rfl e))
        fun r e => CancelOrder.sure_done hv hT (Prod.ext rfl e)
    | _ => exact hT.elim
  | syncBalance userId =>
    cases t with
    | syncBalance p =>
      cases hs
      exact answered_lift (fun q e => SyncBalance.sure_next hT (Prod.ext rfl e))
        fun r e => SyncBalance.sure_done hv hT (Prod.ext rfl e)
    | _ => exact hT.elim
  | setMarginType r =>
    cases t with
    | setMarginType p =>
      cases hs
      exact answered_lift (fun q e => SetMarginType.sure_next hT (Prod.ext rfl e))
        fun text e => SetMarginType.sure_done hT (Prod.ext rfl e)
    | _ => exact hT.elim
  | applyLiquidation symbol =>
    cases t with
    | applyLiquidation p =>
      cases hs
      exact answered_lift (fun q _ => trivial) fun r _ => trivial
    | _ => exact hT.elim

/-- A step keeps the users and the accounts. -/
theorem Task.step_keeps {t : Task cfg} {n : Next (Task cfg) (Except Failure Reply)}
    (hs : Task.step cfg c w a t = (w', n)) : w.db.Kept w'.db := by
  rcases Task.step_db hs with e | hf
  · rw [e]
    exact ⟨rfl, List.Subset.refl _⟩
  · exact (flush_gained hf).kept

theorem sessions_answered {init : World → Prop} {requests : List Request} :
    ((sessions cfg c init requests).restrict (StepMeets fun _ _ _ => True)).Inductive fun s =>
      s.1.db.Valid c ∧ ∀ (i : ℕ) n, s.2[i]? = some n →
        ∃ req, requests[i]? = some req ∧ Answered cfg c s.1 req n := by
  refine interleave_indexed (G := fun w : World => w.db.Valid c)
    (T := fun i w n => ∃ req, requests[i]? = some req ∧ Answered cfg c w req n)
    (fun w ts hi => ⟨hi.1, fun i n hn => ?_⟩) fun i w a t w' n hv hT _ hs => ?_
  · rw [hi.2.2, List.getElem?_map] at hn
    obtain ⟨req, hreq, rfl⟩ := Option.map_eq_some_iff.mp hn
    refine ⟨req, hreq, ?_⟩
    cases req with
    | createOrder payload => exact rfl
    | closePosition userId symbol => exact ⟨rfl, rfl⟩
    | cancelOrder orderId userId => exact ⟨rfl, rfl⟩
    | syncBalance userId => exact rfl
    | setMarginType r => exact rfl
    | applyLiquidation symbol => trivial
  · obtain ⟨req, hreq, hsure⟩ := hT
    have hl : w.Later w' :=
      ⟨Task.step_extends hs, Task.step_later hv (Task.Sure.holds hsure) hs⟩
    refine ⟨?_, ⟨req, hreq, Task.step_answered hv hsure hs⟩, fun j m _ hm => ?_⟩
    · exact Task.step_valid hv hs
    · obtain ⟨req', hreq', hanswered⟩ := hm
      exact ⟨req', hreq', hanswered.later hl (Task.step_keeps hs)⟩

/-- **Replies.** Whatever the handlers do at the same time and afterwards: in every state in which the
handler of a request has replied with success, what the reply stands for holds. -/
theorem reply_kept {init : World → Prop} {requests : List Request}
    {s : World × List (Next (Task cfg) (Except Failure Reply))}
    (h : (sessions cfg c init requests).Reach s) {i : ℕ} {r : Reply}
    (hr : s.2[i]? = some (.done (.ok r))) :
    ∃ req, requests[i]? = some req ∧ Acknowledges cfg c s.1 req r :=
  ((sessions_answered.unrestrict fun _ _ _ _ => trivial).reach h).2 i _ hr

open Sample in
/-- The order that was accepted first, after another order and a close. -/
theorem reply_kept_between :
    ∃ s r, (sessions config (.numeric 8) (fun w => w.db.Sound) ordersAndClose).Reach s ∧
      s.2[0]? = some (.done (.ok r)) ∧ s.2.all Next.isDone ∧
      ∃ req, ordersAndClose[0]? = some req ∧ Acknowledges config (.numeric 8) s.1 req r := by
  let f := exec (Task.step config (.numeric 8)) fun _ _ _ => True
  have hrun : (closeBetween.foldlM f ordersAndCloseStart).map (fun s =>
      (s.2.length, s.2.all Next.isDone, failures s.2)) = some (3, true, []) := by decide +kernel
  obtain ⟨s, hs, h⟩ := Option.map_eq_some_iff.mp hrun
  simp only [Prod.mk.injEq] at h
  obtain ⟨hlen, hdone, hok⟩ := h
  have hstart : (sessions config (.numeric 8) (fun w => w.db.Sound) ordersAndClose).init
      ordersAndCloseStart :=
    ⟨(seeded (by decide) (by decide +kernel)).valid, start_sound _, rfl⟩
  have hreach : (sessions config (.numeric 8) (fun w => w.db.Sound) ordersAndClose).Reach s :=
    .foldlM (f := f) (fun _ _ _ _ h => (exec_step h).2) (.init hstart) hs
  obtain ⟨n, hn⟩ : ∃ n, s.2[0]? = some n := ⟨_, List.getElem?_eq_getElem (by omega)⟩
  have hmem := List.mem_of_getElem? hn
  cases n with
  | await t => exact absurd (List.all_eq_true.mp hdone _ hmem) (by simp [Next.isDone])
  | done x =>
    cases x with
    | error e =>
      have hfailed : e ∈ failures s.2 := List.mem_filterMap.mpr ⟨_, hmem, rfl⟩
      rw [hok] at hfailed
      cases hfailed
    | ok r => exact ⟨s, r, hreach, hn, hdone, reply_kept hreach hn⟩

end CryptoExchange
