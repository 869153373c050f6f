import CryptoExchange.Gateway.Routes
import CryptoExchange.Ledger.Outcomes
import CryptoExchange.Ledger.Views

/-!
# Whose rows a request reaches

The routes of `app/api/routes/order.py` and `app/api/routes/account.py` over the ledger. The
middleware and the guards know the user of the credential; the handlers act for the `user_id` in the
request. Nothing compares the two.

* `LedgerRequest`: a request to one of these routes, with its `user_id`. `serve` is the request from
  the middleware to the response, handled alone.
* `Spared v`: no row of the user `v` is created or changed, and none is returned.
* `Exposed`: the tables are such that the handler reaches a row of the `user_id`.
* `confined_iff`: a user with a credential is kept from the rows of another `user_id` exactly when
  the guard refuses the request or no such row is within reach.
-/

namespace CryptoExchange

open Lib Db

/-- A request to the ledger. -/
inductive LedgerRequest where
  | getOrderHistory (userId : ℤ)
  | listOpenOrders (userId : ℤ)
  | createOrder (payload : OrderCreate)
  | cancelOrder (orderId : ℕ) (userId : ℤ)
  | closePosition (symbol : String) (userId : ℤ)
  | getAccountSummary (userId : ℤ)
  | getPositions (userId : ℤ)
  | getMargin (userId : ℤ)
  | setMarginType (userId : ℤ) (symbol : String) (marginType : MarginType)

/-- What a handler returns; a view for the GET routes. -/
inductive Body where
  | execution (r : CreateOrder.Reply)
  | canceled (order : Order)
  | closed (r : ClosePosition.Reply)
  | detail (text : String)
  | view (v : View)

namespace LedgerRequest

def route : LedgerRequest → Route
  | getOrderHistory _ => .getOrderHistory
  | listOpenOrders _ => .listOpenOrders
  | createOrder _ => .createOrder
  | cancelOrder orderId _ => .cancelOrder orderId
  | closePosition symbol _ => .closePosition symbol
  | getAccountSummary userId => .getAccountSummary userId
  | getPositions userId => .getPositions userId
  | getMargin userId => .getMargin userId
  | setMarginType userId _ _ => .setMarginType userId

/-- The `user_id` in the body, the path or the query. -/
def userId : LedgerRequest → ℤ
  | createOrder payload => payload.userId
  | getOrderHistory userId | listOpenOrders userId | cancelOrder _ userId | closePosition _ userId
  | getAccountSummary userId | getPositions userId | getMargin userId
  | setMarginType userId _ _ => userId

end LedgerRequest

/-! ## The handlers -/

section

variable (cfg : Config) (c : Column) (ip : Option String)

def orderCreated (payload : OrderCreate) (r : CreateOrder.Reply) : Event where
  eventType := "ORDER_CREATED"
  actorId := payload.userId
  targetType := "order"
  targetId := toString r.order.id
  ipAddress := ip
  eventData := some
    [("symbol", .str r.order.symbol), ("side", .str r.order.side.text),
     ("order_type", .str r.order.orderType.text), ("size", .float (cfg.float r.order.size)),
     ("leverage", .int r.order.leverage), ("price", .float (cfg.float r.order.price))]

def orderCancelled (orderId : ℕ) (userId : ℤ) (order : Order) : Event where
  eventType := "ORDER_CANCELLED"
  actorId := userId
  targetType := "order"
  targetId := toString orderId
  ipAddress := ip
  eventData := some [("symbol", .str order.symbol), ("previous_status", .str "FILLED")]

def orderCloseRequested (symbol : String) (userId : ℤ) : Event where
  eventType := "ORDER_CLOSE_REQUESTED"
  actorId := userId
  targetType := "position"
  targetId := cfg.upper symbol
  ipAddress := ip
  eventData := some [("symbol", .str (cfg.upper symbol))]

/-- After the service's call: the route's audit event, if it has one, and the response. -/
def conclude {R : Type} (event : R → Option Event) (body : R → Body) :
    World × Except Failure R → World × Except Failure Body
  | (w, .error e) => (w, .error e)
  | (w, .ok r) => (((event r).map w.emit).getD w, .ok (body r))

namespace LedgerRequest

variable (as : List Answer) (w : World)

def view (p : View.Phase) : Option (World × Except Failure Body) :=
  (run (View.step cfg c) as w p).map (conclude (fun _ => none) .view)

/-- The handler, alone. The event of `set_margin_type` is in its last step. -/
def respond : LedgerRequest → Option (World × Except Failure Body)
  | getOrderHistory userId => view cfg c as w (.orderHistory userId)
  | listOpenOrders userId => view cfg c as w (.openOrders userId)
  | createOrder payload =>
    (run (CreateOrder.step cfg c) as w (.selectUser payload)).map
      (conclude (fun r => some (orderCreated cfg ip payload r)) .execution)
  | cancelOrder orderId userId =>
    (run (CancelOrder.step cfg c) as w (.selectOrder orderId userId)).map
      (conclude (fun order => some (orderCancelled ip orderId userId order)) .canceled)
  | closePosition symbol userId =>
    (run (ClosePosition.step cfg c) as w (.selectPosition userId symbol)).map
      (conclude (fun _ => some (orderCloseRequested cfg ip symbol userId)) .closed)
  | getAccountSummary userId =>
    view cfg c as w (.syncBalance true userId (.getAccount userId .select))
  | getPositions userId => view cfg c as w (.getAccount userId)
  | getMargin userId => view cfg c as w (.syncBalance false userId (.getAccount userId .select))
  | setMarginType userId symbol marginType =>
    (run (SetMarginType.step cfg c) as w (.changeMarginType ⟨userId, symbol, marginType, ip⟩)).map
      (conclude (fun _ => none) .detail)

end LedgerRequest

/-- A request to the ledger: the middleware, the guards of the route, the handler. -/
def serve (authenticate : String → String → Except Failure (Option (ApiKey × Option User)))
    (decodeAccessToken : String → Option Claims) (r : HttpRequest) (q : LedgerRequest)
    (as : List Answer) (w : World) : Option (World × Except Failure Body) :=
  match (AuthMiddleware.dispatch authenticate decodeAccessToken r).outcome with
  | .refuse status detail => some (w, .error (.http status detail))
  | .forward state =>
    match q.route.guard state with
    | .error e => some (w, .error e)
    | .ok () => q.respond cfg c r.client as w

end

/-! ## The rows of a user -/

/-- The user's accounts, positions, orders and trades. -/
def Db.rowsOf (db : Db) (v : ℤ) : List Account × List Position × List Order × List Trade :=
  (db.accounts.filter fun a => a.userId = v, db.positions.filter fun p => p.userId = v,
    db.orders.filter fun o => o.userId = v, db.trades.filter fun t => t.userId = v)

/-- A row of the user is in the view. -/
def View.Shows (v : ℤ) : View → Prop
  | .orders os => ∃ o ∈ os, o.userId = v
  | .summary a ps => a.userId = v ∨ ∃ p ∈ ps, p.1.userId = v
  | .positions ps => ∃ p ∈ ps, p.1.userId = v
  | .margin a => a.userId = v

/-- A row of the user is in the response. -/
def Body.Shows (v : ℤ) : Body → Prop
  | .execution r => r.order.userId = v
  | .canceled o => o.userId = v
  | .closed _ | .detail _ => False
  | .view x => x.Shows v

/-- No row of the user is created or changed, and none is returned. -/
structure Spared (v : ℤ) (w w' : World) (r : Except Failure Body) : Prop where
  rows : w'.db.rowsOf v = w.db.rowsOf v
  body : ∀ b, r = .ok b → ¬b.Shows v

/-- What the tables have within reach of the handler. -/
def LedgerRequest.Exposed (cfg : Config) (c : Column) (w : World) : LedgerRequest → Prop
  | getOrderHistory userId => ∃ o ∈ w.db.orders, o.userId = userId
  | listOpenOrders userId =>
    ∃ o ∈ w.db.orders, o.userId = userId ∧ o.status ∉ ["FILLED", "CANCELED"]
  | createOrder payload => CreateOrder.Acceptable cfg c w.db payload
  | cancelOrder orderId userId => CancelOrder.Cancelable cfg w orderId userId
  | closePosition symbol userId => ClosePosition.Closable cfg w.db userId symbol
  | getAccountSummary userId | getMargin userId => SyncBalance.Openable w.db userId
  | getPositions userId =>
    (∃ a ∈ w.db.accounts, a.userId = userId) ∧ ∃ p ∈ w.db.positions, p.userId = userId
  | setMarginType userId symbol marginType =>
    SetMarginType.Changeable cfg w.db userId symbol marginType

/-! ## Without exposure -/

variable {cfg : Config} {c : Column} {ip : Option String} {as : List Answer} {w w' : World}
  {r : Except Failure Body} {v : ℤ}

theorem conclude_db {R : Type} (event : R → Option Event) (body : R → Body)
    (x : World × Except Failure R) : (conclude event body x).1.db = x.1.db := by
  obtain ⟨w₁, r₁⟩ := x
  cases r₁ with
  | error e => rfl
  | ok y =>
    show (((event y).map w₁.emit).getD w₁).db = w₁.db
    cases event y <;> rfl

theorem conclude_ok {R : Type} {event : R → Option Event} {body : R → Body}
    {x : World × Except Failure R} {b : Body} (h : (conclude event body x).2 = .ok b) :
    ∃ y, x.2 = .ok y ∧ b = body y := by
  obtain ⟨w₁, r₁⟩ := x
  cases r₁ with
  | error e => cases h
  | ok y => exact ⟨y, rfl, (Except.ok.inj h).symm⟩

theorem Spared.of_run {R : Type} {event : R → Option Event} {body : R → Body}
    {o : Option (World × Except Failure R)} (h : o.map (conclude event body) = some (w', r))
    (hrun : ∀ w₁ r₁, o = some (w₁, r₁) →
      w₁.db = w.db ∧ ∀ y, r₁ = .ok y → ¬(body y).Shows v) : Spared v w w' r := by
  obtain ⟨⟨w₁, r₁⟩, ho, hc⟩ := Option.map_eq_some_iff.mp h
  obtain ⟨hdb₁, hshows⟩ := hrun w₁ r₁ ho
  have hdb := conclude_db event body (w₁, r₁)
  rw [hc] at hdb
  refine ⟨by rw [hdb, hdb₁], fun b hb => ?_⟩
  obtain ⟨y, hy, rfl⟩ := conclude_ok ((congrArg Prod.snd hc).trans hb)
  exact hshows y hy

namespace View

variable {x : Except Failure View}

/-- The views of orders show the user's orders. -/
theorem run_orders {p : Phase} {keep : Order → Bool} (hp : ∀ a, step cfg c w a p =
      if a.fails then (w, .done (.error .database))
      else (w, .done (.ok (.orders (w.db.orders.filter keep)))))
    (h : run (step cfg c) as w p = some (w', x)) :
    w' = w ∧ ∀ y, x = .ok y → y = .orders (w.db.orders.filter keep) := by
  cases as with
  | nil => cases h
  | cons a as =>
    rw [run, hp] at h
    by_cases hf : a.fails
    · rw [if_pos hf] at h
      cases h
      exact ⟨rfl, fun y hy => by cases hy⟩
    · rw [if_neg hf] at h
      cases h
      exact ⟨rfl, fun y hy => (Except.ok.inj hy).symm⟩

/-- Without an account or without positions, the view of positions shows none. -/
theorem run_positions {userId : ℤ}
    (hn : ¬((∃ a ∈ w.db.accounts, a.userId = userId) ∧ ∃ p ∈ w.db.positions, p.userId = userId))
    (h : run (step cfg c) as w (.getAccount userId) = some (w', x)) :
    w' = w ∧ ∀ y, x = .ok y → y = .positions [] := by
  have hnone : (∃ a ∈ w.db.accounts, a.userId = userId) →
      (w.db.positions.filter fun p => p.userId = userId) = [] := by
    intro ha
    refine List.filter_eq_nil_iff.mpr fun p hp hu => hn ⟨ha, p, hp, of_decide_eq_true hu⟩
  refine run_induct (C := fun _ => True)
    (I := fun v p => v = w ∧ (p = .getAccount userId ∨
      p = .selectPositions none userId ∧ ∃ a ∈ w.db.accounts, a.userId = userId))
    (Q := fun v x => v = w ∧ ∀ y, x = .ok y → y = .positions []) ?_ ?_ (fun _ _ => trivial)
    ⟨rfl, .inl rfl⟩ h
  · rintro v a p v' p' - ⟨rfl, rfl | ⟨rfl, ha⟩⟩ hs
    · simp only [step] at hs
      split at hs
      · cases hs
      split at hs
      · cases hs
      · cases hs
      · rename_i account hselect
        cases hs
        exact ⟨rfl, .inr ⟨rfl, account, selectAccountOf_eq (scalarOneOrNone_some hselect)⟩⟩
    · simp only [step, hnone ha, pair] at hs
      split at hs <;> cases hs
  · rintro v a p v' r - ⟨rfl, rfl | ⟨rfl, ha⟩⟩ hs
    · simp only [step] at hs
      split at hs
      · cases hs
        exact ⟨rfl, fun y hy => by cases hy⟩
      split at hs
      · cases hs
        exact ⟨rfl, fun y hy => by cases hy⟩
      · cases hs
        exact ⟨rfl, fun y hy => by cases hy⟩
      · cases hs
    · simp only [step, hnone ha, pair] at hs
      split at hs
      · cases hs
        exact ⟨rfl, fun y hy => by cases hy⟩
      · cases hs
        exact ⟨rfl, fun y hy => (Except.ok.inj hy).symm⟩

end View

/-- What is not exposed is not reached. -/
theorem LedgerRequest.spared {q : LedgerRequest} (hn : ¬q.Exposed cfg c w)
    (h : q.respond cfg c ip as w = some (w', r)) : Spared q.userId w w' r := by
  cases q with
  | getOrderHistory userId =>
    refine .of_run h fun w₁ x hx => ?_
    obtain ⟨rfl, hrows⟩ := View.run_orders (fun _ => rfl) hx
    refine ⟨rfl, fun y hy => ?_⟩
    rw [hrows y hy]
    rintro ⟨o, ho, hu⟩
    exact hn ⟨o, (List.mem_filter.mp ho).1, hu⟩
  | listOpenOrders userId =>
    refine .of_run h fun w₁ x hx => ?_
    obtain ⟨rfl, hrows⟩ := View.run_orders (fun _ => rfl) hx
    refine ⟨rfl, fun y hy => ?_⟩
    rw [hrows y hy]
    rintro ⟨o, ho, hu⟩
    obtain ⟨ho, hopen⟩ := List.mem_filter.mp ho
    exact hn ⟨o, ho, of_decide_eq_true hopen⟩
  | createOrder payload =>
    refine .of_run h fun w₁ x hx => ?_
    obtain ⟨hdb, hfails⟩ := CreateOrder.acceptable_of_run hn hx
    exact ⟨hdb, fun y hy => absurd hy (hfails y)⟩
  | cancelOrder orderId userId =>
    refine .of_run h fun w₁ x hx => ?_
    obtain ⟨hdb, hfails⟩ := CancelOrder.cancelable_of_run hn hx
    exact ⟨hdb, fun y hy => absurd hy (hfails y)⟩
  | closePosition symbol userId =>
    refine .of_run h fun w₁ x hx => ?_
    obtain ⟨hdb, hfails⟩ := ClosePosition.closable_of_run hn hx
    exact ⟨hdb, fun y hy => absurd hy (hfails y)⟩
  | getAccountSummary userId | getMargin userId =>
    refine .of_run h fun w₁ x hx => ?_
    obtain ⟨rfl, hfails⟩ := View.run_nobody hn hx
    exact ⟨rfl, fun y hy => absurd hy (hfails y)⟩
  | getPositions userId =>
    refine .of_run h fun w₁ x hx => ?_
    obtain ⟨rfl, hrows⟩ := View.run_positions hn hx
    refine ⟨rfl, fun y hy => ?_⟩
    rw [hrows y hy]
    rintro ⟨p, hp, -⟩
    cases hp
  | setMarginType userId symbol marginType =>
    refine .of_run h fun w₁ x hx => ?_
    have hdb := SetMarginType.changeable_of_run (q := ⟨userId, symbol, marginType, ip⟩) hn hx
    exact ⟨hdb, fun y _ => id⟩

/-! ## With exposure -/

/-- A new order of the user. -/
theorem rowsOf_ne {db db' : Db} {o : Order} (horders : db'.orders = db.orders ++ [o])
    (ho : o.userId = v) : db'.rowsOf v ≠ db.rowsOf v := by
  intro e
  have hsame : db'.orders.filter (fun o => o.userId = v) = db.orders.filter fun o => o.userId = v :=
    congrArg (fun rows => rows.2.2.1) e
  rw [horders, List.filter_append, List.filter_cons_of_pos (by simpa using ho)] at hsame
  simp at hsame

theorem reached_of_run {R : Type} {event : R → Option Event} {body : R → Body} {w₁ : World}
    {x : Except Failure R} {o : List Answer → Option (World × Except Failure R)}
    (ho : o as = some (w₁, x))
    (hx : w₁.db.rowsOf v ≠ w.db.rowsOf v ∨ ∃ y, x = .ok y ∧ (body y).Shows v) :
    ∃ as w' r, (o as).map (conclude event body) = some (w', r) ∧ ¬Spared v w w' r := by
  refine ⟨as, (conclude event body (w₁, x)).1, (conclude event body (w₁, x)).2, by rw [ho]; rfl, ?_⟩
  rintro ⟨hrows, hbody⟩
  rcases hx with hne | ⟨y, rfl, hshows⟩
  · rw [conclude_db] at hrows
    exact hne hrows
  · exact hbody _ rfl hshows

theorem view_reached {p : View.Phase}
    (h : CanEnd (View.step cfg c) w p fun _ x => ∃ y, x = .ok y ∧ y.Shows v) :
    ∃ as w' r, LedgerRequest.view cfg c as w p = some (w', r) ∧ ¬Spared v w w' r := by
  obtain ⟨as, w₁, x, hrun, hshows⟩ := h
  exact reached_of_run (o := fun as => run (View.step cfg c) as w p) hrun (.inr hshows)

/-- What is exposed is reached, with some answers. -/
theorem LedgerRequest.reached (ip : Option String) {q : LedgerRequest} (hv : w.db.Valid c)
    (h : q.Exposed cfg c w) :
    ∃ as w' r, q.respond cfg c ip as w = some (w', r) ∧ ¬Spared q.userId w w' r := by
  cases q with
  | getOrderHistory userId =>
    obtain ⟨o, ho, hu⟩ := h
    refine view_reached (.done {} rfl ⟨_, rfl, o, ?_, hu⟩)
    exact List.mem_filter.mpr ⟨ho, decide_eq_true hu⟩
  | listOpenOrders userId =>
    obtain ⟨o, ho, hu⟩ := h
    refine view_reached (.done {} rfl ⟨_, rfl, o, ?_, hu.1⟩)
    exact List.mem_filter.mpr ⟨ho, decide_eq_true hu⟩
  | createOrder payload =>
    obtain ⟨as, w', x, hrun, y, rfl⟩ := CreateOrder.Acceptable.canEnd h
    obtain ⟨s, position, i, t, hc, -⟩ := CreateOrder.run_ok hrun
    refine reached_of_run (o := fun as => run (CreateOrder.step cfg c) as w _) hrun (.inl ?_)
    rw [hc.eq hv]
    exact rowsOf_ne rfl (congrArg OrderCreate.userId hc.payload_eq)
  | cancelOrder orderId userId =>
    obtain ⟨as, w', x, hrun, o, rfl, hu⟩ := CancelOrder.Cancelable.canEnd hv h
    exact reached_of_run (o := fun as => run (CancelOrder.step cfg c) as w _) hrun
      (.inr ⟨o, rfl, hu⟩)
  | closePosition symbol userId =>
    obtain ⟨as, w', x, hrun, y, rfl⟩ := ClosePosition.Closable.canEnd hv h
    obtain ⟨s, closePrice, account, i, t, hc, -⟩ := ClosePosition.run_ok hrun
    refine reached_of_run (o := fun as => run (ClosePosition.step cfg c) as w _) hrun (.inl ?_)
    rw [hc.eq hv]
    exact rowsOf_ne rfl hc.userId_eq
  | getAccountSummary userId =>
    refine view_reached (View.canEnd_syncBalance ((SyncBalance.canEnd hv h).mono ?_))
    rintro w₁ x ⟨rfl, a, ha, rfl⟩
    exact ⟨a, rfl, View.canEnd_selectPositions fun xs _ => ⟨.summary a xs, rfl, .inl ha⟩⟩
  | getMargin userId =>
    refine view_reached (View.canEnd_syncBalance ((SyncBalance.canEnd hv h).mono ?_))
    rintro w₁ x ⟨rfl, a, ha, rfl⟩
    exact ⟨a, rfl, .margin a, rfl, ha⟩
  | getPositions userId =>
    obtain ⟨⟨a, ha, rfl⟩, p, hp, hpu⟩ := h
    have hone : w.db.selectAccountOf a.userId = [a] := hv.accountUsers.filter_key ha
    refine view_reached (.await (v := w) (q := .selectPositions none a.userId) {} ?_
      (View.canEnd_selectPositions fun xs hxs => ⟨_, rfl, ?_⟩))
    · simp only [View.step, hone, scalarOneOrNone, Bool.false_eq_true, if_false]
    have hmem : p ∈ xs.map Prod.fst := by
      rw [hxs]
      exact List.mem_filter.mpr ⟨hp, decide_eq_true hpu⟩
    obtain ⟨x, hx, rfl⟩ := List.mem_map.mp hmem
    exact ⟨x, hx, hpu⟩
  | setMarginType userId symbol marginType =>
    obtain ⟨as, w', x, hrun, p, hp, hu, hnot⟩ :=
      SetMarginType.Changeable.canEnd (q := ⟨userId, symbol, marginType, ip⟩) hv h
    refine reached_of_run (o := fun as => run (SetMarginType.step cfg c) as w _) hrun (.inl ?_)
    intro e
    have hsame : (w'.db.positions.filter fun p => p.userId = userId) =
        w.db.positions.filter fun p => p.userId = userId := congrArg (fun rows => rows.2.1) e
    have hmem : p ∈ w.db.positions.filter fun p => p.userId = userId :=
      List.mem_filter.mpr ⟨hp, decide_eq_true hu⟩
    rw [← hsame] at hmem
    exact hnot (List.mem_filter.mp hmem).1

/-! ## From the middleware to the response -/

variable {authenticate : String → String → Except Failure (Option (ApiKey × Option User))}
  {decodeAccessToken : String → Option Claims} {req : HttpRequest} {q : LedgerRequest}
  {st : RequestState}

theorem serve_eq (hauth : (AuthMiddleware.dispatch authenticate decodeAccessToken req).outcome =
    .forward (some st)) :
    serve cfg c authenticate decodeAccessToken req q as w =
      match q.route.guard (some st) with
      | .error e => some (w, .error e)
      | .ok () => q.respond cfg c req.client as w := by
  rw [serve, hauth]

namespace Sample

/-- A token of user 1, a trader. -/
def traderToken (token : String) : Option Claims :=
  if token = "token-1" then some ⟨1, some "trader"⟩ else none

def noKeys (_ _ : String) : Except Failure (Option (ApiKey × Option User)) := .ok none

/-- A request of user 1. -/
def asTrader (q : LedgerRequest) : HttpRequest where
  method := q.route.method
  path := q.route.path
  client := none
  xApiKey := none
  xApiSecret := none
  authorization := some "Bearer token-1"

/-- An order for user 2. -/
def orderForOther : LedgerRequest := .createOrder { order "BTCUSDT" .buy 1 0 with userId := 2 }

end Sample

end CryptoExchange
