import CryptoExchange.Ledger.Accounts
import CryptoExchange.Risk.Engine

/-!
# Orders

`app/services/order_service.py`: `create_order`, `close_position` and `cancel_order`, with the
request body of `app/schemas/order.py` and the calls of `app/services/binance_service.py`.
-/

namespace CryptoExchange

open Lib

/-- `BinanceService.create_order` and its siblings without credentials. -/
def noCredentials : String := "Binance API credentials are not configured"

/-- The reply of a call that needs credentials. -/
def exchangeCall (cfg : Config) (a : Answer) : Except String ExchangeOrder :=
  if cfg.hasCredentials then a.exchange else .error noCredentials

/-- The `ValueError` of `market_service.get_price`. -/
def noPrice (cfg : Config) (symbol : String) : String :=
  "Unsupported symbol or exchange unavailable: " ++ cfg.upper symbol

def OrderType.text : OrderType → String
  | .market => "market"
  | .limit => "limit"

/-- A request body that passed validation. -/
structure OrderCreate where
  userId : ℤ
  symbol : String
  side : Side
  size : PyFloat
  leverage : Option ℤ := none
  orderType : OrderType := .market
  limitPrice : Option PyFloat := none
  size_pos : 0 < size.value
  leverage_ge : ∀ l ∈ leverage, 1 ≤ l
  limitPrice_pos : ∀ p ∈ limitPrice, 0 < p.value
  limitPrice_given : orderType = .limit → limitPrice ≠ none

/-- The limit price of a limit order, else the market price. -/
def OrderCreate.price (o : OrderCreate) (current : PyFloat) : ℚ :=
  match o.orderType, o.limitPrice with
  | .limit, some p => p.value
  | _, _ => current.value

theorem OrderCreate.price_pos (o : OrderCreate) {current : PyFloat} (h : 0 < current.value) :
    0 < o.price current := by
  unfold OrderCreate.price
  split
  · rename_i p _ hp
    exact o.limitPrice_pos p hp
  · exact h

/-! ## `create_order` -/

namespace CreateOrder

/-- The local variables after the account was found. -/
structure Loaded where
  payload : OrderCreate
  user : User
  opened : OpenAccount

namespace Loaded

variable (s : Loaded)

def orderSize : ℚ := s.payload.size.value

def riskInput (current : PyFloat) (userExposure globalExposure : ℚ) : RiskInput where
  account := s.opened.account
  user := s.user
  orderSize := s.orderSize
  price := s.payload.price current
  side := s.payload.side
  requestedLeverage := s.payload.leverage
  currentUserExposure := userExposure
  currentGlobalExposure := globalExposure
  symbol := s.payload.symbol

def rejected (cfg : Config) (r : Rejection) : Event where
  eventType := "RISK_CHECK_REJECTED"
  actorId := s.payload.userId
  actorUsername := s.user.username
  targetType := "order"
  eventData := some
    [("symbol", .str s.payload.symbol), ("reason", .str r.reason),
     ("requested_leverage", jsonInt? s.payload.leverage),
     ("order_size", .float (cfg.float s.orderSize))]
  severity := "WARN"

end Loaded

/-- The local variables after the risk check: it approved. -/
structure Checked (cfg : Config) extends Loaded where
  current : PyFloat
  userExposure : ℚ
  globalExposure : ℚ
  vol : Volatility
  approval : Approval
  evaluated : evaluateOrder cfg vol (toLoaded.riskInput current userExposure globalExposure) =
    .ok (.approved approval)

/-- The local variables after the exchange accepted the order and the order row was flushed. -/
structure Placed (cfg : Config) extends Checked cfg where
  orderId : ℕ
  reply : ExchangeOrder

variable {cfg : Config}

theorem Checked.approved (s : Checked cfg) :
    Approved cfg s.vol (s.toLoaded.riskInput s.current s.userExposure s.globalExposure)
      s.approval :=
  evaluateOrder_approved s.evaluated

def Checked.price (s : Checked cfg) : ℚ := s.payload.price s.current

def Checked.request (s : Checked cfg) : ExchangeRequest :=
  .newOrder s.payload.symbol s.payload.side s.payload.orderType s.orderSize
    (s.payload.limitPrice.map PyFloat.value)

namespace Placed

variable (s : Placed cfg)

/-- `exchange_order_id`: `None` for a missing `orderId` and for 0. -/
def exchangeOrderId : Option ℤ := s.reply.orderId.filter fun x => x ≠ 0

def order : Order where
  id := s.orderId
  userId := s.payload.userId
  symbol := s.payload.symbol
  side := s.payload.side
  orderType := s.payload.orderType
  size := s.orderSize
  leverage := s.approval.leverage
  price := s.price
  status := s.reply.status.getD "NEW"

def signedQty : ℚ := s.payload.side.signed s.orderSize

def account : Account := s.opened.account

/-- The account with the order's margin reserved. -/
def reserved : Account :=
  { s.account with marginUsed := s.account.marginUsed + s.approval.requiredMargin }

/-- A live position with the order added. -/
def added (p : Position) : Position :=
  { p with
    quantity := p.quantity + s.signedQty
    entryPrice := s.price
    notional := |p.quantity + s.signedQty| * s.price
    margin := p.margin + s.approval.requiredMargin }

/-- The first position in the symbol. -/
def position (id : ℕ) : Position where
  id
  accountId := s.account.id
  userId := s.payload.userId
  symbol := s.payload.symbol
  quantity := s.signedQty
  entryPrice := s.price
  notional := |s.signedQty| * s.price
  margin := s.approval.requiredMargin
  liquidated := false

def trade (id : ℕ) : Trade where
  id
  userId := s.payload.userId
  orderId := s.orderId
  symbol := s.payload.symbol
  side := s.payload.side
  size := s.orderSize
  price := s.price
  notional := s.approval.orderNotional

/-- The unit of work that the commit ends. -/
def writes (position : Option Position) (positionId tradeId : ℕ) : List Write :=
  s.opened.writes ++ [.insertOrder s.order] ++ updateAccount s.account s.reserved ++
  (match position with
    | some p => updatePosition p (s.added p)
    | none => [.insertPosition (s.position positionId)]) ++
  [.insertTrade (s.trade tradeId)]

def approvedEvent : Event where
  eventType := "RISK_CHECK_APPROVED"
  actorId := s.payload.userId
  actorUsername := s.user.username
  targetType := "order"
  targetId := toString s.orderId
  eventData := some
    [("symbol", .str s.payload.symbol), ("tier", .str s.user.tier),
     ("leverage", .int s.approval.leverage),
     ("max_leverage_for_tier", .int s.approval.maxLeverageForTier),
     ("required_margin", .float (cfg.float s.approval.requiredMargin)),
     ("order_notional", .float (cfg.float s.approval.orderNotional)),
     ("liquidation_price", .float (cfg.float s.approval.liquidationPrice)),
     ("maintenance_margin_rate", .float s.approval.maintenanceMarginRate),
     ("global_exposure_after", .float (cfg.float s.approval.globalExposureAfter))]

end Placed

/-- The dict that `create_order` returns; `order` is the row as refreshed. -/
structure Reply where
  order : Order
  requiredMargin : PyFloat
  userExposureAfter : PyFloat
  globalExposureAfter : PyFloat
  liquidationPrice : PyFloat
  maintenanceMargin : PyFloat
  leverage : ℤ
  maxLeverageForTier : ℤ

def Placed.result (s : Placed cfg) (order : Order) : Reply where
  order
  requiredMargin := cfg.float s.approval.requiredMargin
  userExposureAfter := cfg.float s.approval.userExposureAfter
  globalExposureAfter := cfg.float s.approval.globalExposureAfter
  liquidationPrice := cfg.float s.approval.liquidationPrice
  maintenanceMargin := s.approval.maintenanceMargin
  leverage := s.approval.leverage
  maxLeverageForTier := s.approval.maxLeverageForTier

inductive Phase (cfg : Config) where
  | selectUser (payload : OrderCreate)
  | getAccount (payload : OrderCreate) (user : User) (p : GetAccount)
  | getPrice (s : Loaded)
  | userExposure (s : Loaded) (current : PyFloat)
  | globalExposure (s : Loaded) (current : PyFloat) (userExposure : ℚ)
  | newOrder (s : Checked cfg)
  | flushOrder (s : Checked cfg) (reply : ExchangeOrder)
  | redisSet (s : Placed cfg) (exchangeOrderId : ℤ)
  | selectPosition (s : Placed cfg)
  | commit (s : Placed cfg) (position : Option Position)
  | refresh (s : Placed cfg)

/-- The risk check, and what follows it up to the next `await`. -/
def check (cfg : Config) (vol : Volatility) (w : World) (s : Loaded) (current : PyFloat)
    (userExposure globalExposure : ℚ) : World × After (Phase cfg) Reply :=
  match h : evaluateOrder cfg vol (s.riskInput current userExposure globalExposure) with
  | .error text => (w, .done (.error (.valueError text)))
  | .ok (.rejected r) => (w.emit (s.rejected cfg r), .done (.error (.http 400 r.reason)))
  | .ok (.approved a) =>
    (w, .await (.newOrder
      { toLoaded := s, current, userExposure, globalExposure, vol, approval := a,
        evaluated := h }))

def step (cfg : Config) (c : Column) (w : World) (ans : Answer) :
    Phase cfg → World × After (Phase cfg) Reply
  | .selectUser payload =>
    if ans.fails then (w, .done (.error .database))
    else match scalarOneOrNone (w.db.selectUser payload.userId) with
      | .error e => (w, .done (.error e))
      | .ok none => (w, .done (.error (.http 404 "User not found")))
      | .ok (some user) => (w, .await (.getAccount payload user .select))
  | .getAccount payload user p =>
    match p.step c payload.userId w ans with
    | .await p => (w, .await (.getAccount payload user p))
    | .done (.error e) => (w, .done (.error e))
    | .done (.ok opened) => (w, .await (.getPrice ⟨payload, user, opened⟩))
  | .getPrice s =>
    match ans.price with
    | none => (w, .done (.error (.http 400 (noPrice cfg s.payload.symbol))))
    | some current => (w, .await (.userExposure s current))
  | .userExposure s current =>
    if ans.fails then (w, .done (.error .database))
    else (w, .await (.globalExposure s current (w.db.userExposure s.payload.userId)))
  | .globalExposure s current userExposure =>
    if ans.fails then (w, .done (.error .database))
    else check cfg ans.vol w s current userExposure w.db.globalExposure
  | .newOrder s =>
    match exchangeCall cfg ans with
    | .error text => (w, .done (.error (.http 400 ("Binance order failed: " ++ text))))
    | .ok reply => (w.accept s.request, .await (.flushOrder s reply))
  | .flushOrder s reply =>
    let s' : Placed cfg := { s with orderId := ans.rowId, reply }
    if ans.fails ∨ w.db.flush c (s.opened.writes ++ [.insertOrder s'.order]) = none then
      (w, .done (.error .database))
    else match s'.exchangeOrderId with
      | some x => (w, .await (.redisSet s' x))
      | none => (w, .await (.selectPosition s'))
  | .redisSet s x =>
    if ans.fails then (w, .done (.error .redis))
    else (w.setRedis s.orderId x, .await (.selectPosition s))
  | .selectPosition s =>
    if ans.fails then (w, .done (.error .database))
    else match scalarOneOrNone (w.db.livePositionsOf s.payload.userId s.payload.symbol) with
      | .error e => (w, .done (.error e))
      | .ok position => (w, .await (.commit s position))
  | .commit s position =>
    if ans.fails then (w, .done (.error .database))
    else match w.commit c (s.writes position ans.rowId ans.tradeId) with
      | none => (w, .done (.error .database))
      | some w => (w, .await (.refresh s))
  | .refresh s =>
    match findRow Order.id s.orderId w.db.orders with
    | some order =>
      if ans.fails then (w, .done (.error .database))
      else (w.emit s.approvedEvent, .done (.ok (s.result order)))
    | none => (w, .done (.error .database))

end CreateOrder

/-! ## `close_position` -/

namespace ClosePosition

/-- The local variables after the position was found; `symbol` is in upper case. -/
structure Loaded where
  userId : ℤ
  symbol : String
  position : Position

namespace Loaded

variable (s : Loaded)

def quantity : ℚ := |s.position.quantity|

/-- The side that opened the position. -/
def openSide : Side := if s.position.quantity > 0 then .buy else .sell

def closeSide : Side :=
  match s.openSide with
  | .buy => .sell
  | .sell => .buy

/-- The account with the position's margin released. -/
def released (a : Account) : Account :=
  { a with marginUsed := max (a.marginUsed - s.position.margin) 0 }

def order (id : ℕ) (closePrice : PyFloat) : Order where
  id
  userId := s.userId
  symbol := s.symbol
  side := s.closeSide
  orderType := .market
  size := s.quantity
  leverage := 1
  price := closePrice.value
  status := "FILLED"

def trade (id orderId : ℕ) (closePrice : PyFloat) : Trade where
  id
  userId := s.userId
  orderId
  symbol := s.symbol
  side := s.closeSide
  size := s.quantity
  price := closePrice.value
  notional := s.quantity * closePrice.value

/-- What was changed before the flush of the order. -/
def closing (account : Option Account) : List Write :=
  (match account with
    | some a => updateAccount a (s.released a)
    | none => []) ++
  updatePosition s.position { s.position with liquidated := true }

end Loaded

inductive Phase where
  | selectPosition (userId : ℤ) (symbol : String)
  | getPrice (s : Loaded)
  | reduceOnly (s : Loaded) (closePrice : PyFloat)
  | selectAccount (s : Loaded) (closePrice : PyFloat)
  | flushOrder (s : Loaded) (closePrice : PyFloat) (account : Option Account)
  | commit (s : Loaded) (closePrice : PyFloat) (account : Option Account) (orderId : ℕ)

/-- The dict that `close_position` returns; its `detail` is "Position closed". -/
structure Reply where
  symbol : String
  side : Side
  quantity : PyFloat
  price : PyFloat
  detail : String := "Position closed"

/-- The unit of work that the commit ends. -/
def Loaded.writes (s : Loaded) (closePrice : PyFloat) (account : Option Account)
    (orderId tradeId : ℕ) : List Write :=
  s.closing account ++ [.insertOrder (s.order orderId closePrice)] ++
  [.insertTrade (s.trade tradeId orderId closePrice)]

def step (cfg : Config) (c : Column) (w : World) (ans : Answer) :
    Phase → World × After Phase Reply
  | .selectPosition userId symbol =>
    if ans.fails then (w, .done (.error .database))
    else match scalarOneOrNone (w.db.livePositionsOf userId (cfg.upper symbol)) with
      | .error e => (w, .done (.error e))
      | .ok none => (w, .done (.error (.http 404 ("No open position for " ++ cfg.upper symbol))))
      | .ok (some position) => (w, .await (.getPrice ⟨userId, cfg.upper symbol, position⟩))
  | .getPrice s =>
    match ans.price with
    | none => (w, .done (.error (.valueError (noPrice cfg s.symbol))))
    | some closePrice => (w, .await (.reduceOnly s closePrice))
  | .reduceOnly s closePrice =>
    match exchangeCall cfg ans with
    | .error text => (w, .done (.error (.http 400 ("Binance close position failed: " ++ text))))
    | .ok _ =>
      (w.accept (.reduceOnly s.symbol s.closeSide s.quantity), .await (.selectAccount s closePrice))
  | .selectAccount s closePrice =>
    if ans.fails then (w, .done (.error .database))
    else match scalarOneOrNone (w.db.selectAccount s.position.accountId) with
      | .error e => (w, .done (.error e))
      | .ok account => (w, .await (.flushOrder s closePrice account))
  | .flushOrder s closePrice account =>
    if ans.fails ∨
        w.db.flush c (s.closing account ++ [.insertOrder (s.order ans.rowId closePrice)]) = none then
      (w, .done (.error .database))
    else (w, .await (.commit s closePrice account ans.rowId))
  | .commit s closePrice account orderId =>
    if ans.fails then (w, .done (.error .database))
    else match w.commit c (s.writes closePrice account orderId ans.tradeId) with
      | none => (w, .done (.error .database))
      | some w =>
        (w, .done (.ok
          { symbol := s.symbol, side := s.closeSide, quantity := cfg.float s.quantity,
            price := cfg.float closePrice.value }))

end ClosePosition

/-! ## `cancel_order` -/

namespace CancelOrder

inductive Phase where
  | selectOrder (orderId : ℕ) (userId : ℤ)
  | redisGet (order : Order)
  | cancelOrder (order : Order) (exchangeOrderId : ℤ)
  | commit (order : Order)
  | refresh (order : Order)

def canceled (o : Order) : Order := { o with status := "CANCELED" }

def step (cfg : Config) (c : Column) (w : World) (ans : Answer) :
    Phase → World × After Phase Order
  | .selectOrder orderId userId =>
    if ans.fails then (w, .done (.error .database))
    else match scalarOneOrNone
        (w.db.orders.filter fun o => o.id = orderId ∧ o.userId = userId) with
      | .error e => (w, .done (.error e))
      | .ok none => (w, .done (.error (.http 404 "Order not found")))
      | .ok (some order) =>
        if order.status = "FILLED" then
          (w, .done (.error (.http 400 "Order already filled and cannot be canceled")))
        else (w, .await (.redisGet order))
  | .redisGet order =>
    if ans.fails then (w, .done (.error .redis))
    else match w.redis order.id with
      | none => (w, .await (.commit order))
      | some x => (w, .await (.cancelOrder order x))
  | .cancelOrder order x =>
    match exchangeCall cfg ans with
    | .error text => (w, .done (.error (.http 400 ("Binance cancel failed: " ++ text))))
    | .ok _ => (w.accept (.cancelOrder order.symbol x), .await (.commit order))
  | .commit order =>
    if ans.fails then (w, .done (.error .database))
    else match w.commit c (updateOrder order (canceled order)) with
      | none => (w, .done (.error .database))
      | some w => (w, .await (.refresh order))
  | .refresh order =>
    match findRow Order.id order.id w.db.orders with
    | some order => (w, if ans.fails then .done (.error .database) else .done (.ok order))
    | none => (w, .done (.error .database))

end CancelOrder

end CryptoExchange
