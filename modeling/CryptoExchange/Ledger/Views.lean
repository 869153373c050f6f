import CryptoExchange.Ledger.Orders

/-!
# Views

The handlers that answer a GET of a user's rows: `get_open_orders` and `get_order_history`
(`app/services/order_service.py`), `get_positions_with_pnl` (`app/services/account_service.py`) and
the routes over them (`app/api/routes/order.py`, `app/api/routes/account.py`).

A view has the rows whose columns the response shows, as floats. The sum of floats
`total_unrealized_pnl` is left out, and so is the order of the history (by time of creation).
-/

namespace CryptoExchange

open Lib

/-- The unrealized PnL of a live position; `0.0` when its price cannot be fetched. -/
def Position.pnl (cfg : Config) (p : Position) : Option PyFloat → PyFloat
  | none => .zero
  | some price => cfg.float ((price.value - p.entryPrice) * p.quantity)

inductive View where
  | orders (rows : List Order)
  | summary (account : Account) (positions : List (Position × PyFloat))
  | positions (positions : List (Position × PyFloat))
  | margin (account : Account)

namespace View

/-- `account` in the phases after it: the account of the summary, and `none` for the positions
alone. -/
inductive Phase where
  | orderHistory (userId : ℤ)
  | openOrders (userId : ℤ)
  /-- `sync_balance_from_exchange`, for the summary or for the margin alone. -/
  | syncBalance (full : Bool) (userId : ℤ) (p : SyncBalance.Phase)
  | getAccount (userId : ℤ)
  | selectPositions (account : Option Account) (userId : ℤ)
  /-- The price of `p`, with the positions before it paired with their PnL. -/
  | getPrice (account : Option Account) (paired : List (Position × PyFloat)) (p : Position)
      (todo : List Position)

def ofPositions : Option Account → List (Position × PyFloat) → View
  | some account, ps => .summary account ps
  | none, ps => .positions ps

/-- The loop over the positions, up to the next live one or to its end. -/
def pair (account : Option Account) (paired : List (Position × PyFloat)) :
    List Position → After Phase View
  | [] => .done (.ok (ofPositions account paired))
  | p :: todo =>
    if p.liquidated then pair account (paired ++ [(p, .zero)]) todo
    else .await (.getPrice account paired p todo)

def step (cfg : Config) (c : Column) (w : World) (ans : Answer) :
    Phase → World × After Phase View
  | .orderHistory userId =>
    if ans.fails then (w, .done (.error .database))
    else (w, .done (.ok (.orders (w.db.orders.filter fun o => o.userId = userId))))
  | .openOrders userId =>
    if ans.fails then (w, .done (.error .database))
    else (w, .done (.ok (.orders (w.db.orders.filter fun o =>
      o.userId = userId ∧ o.status ∉ ["FILLED", "CANCELED"]))))
  | .syncBalance full userId p =>
    match SyncBalance.step cfg c w ans p with
    | (w, .await p) => (w, .await (.syncBalance full userId p))
    | (w, .done (.error e)) => (w, .done (.error e))
    | (w, .done (.ok a)) =>
      (w, if full then .await (.selectPositions (some a) userId) else .done (.ok (.margin a)))
  | .getAccount userId =>
    if ans.fails then (w, .done (.error .database))
    else match scalarOneOrNone (w.db.selectAccountOf userId) with
      | .error e => (w, .done (.error e))
      | .ok none => (w, .done (.error (.http 404 "Account not found")))
      | .ok (some _) => (w, .await (.selectPositions none userId))
  | .selectPositions account userId =>
    if ans.fails then (w, .done (.error .database))
    else (w, pair account [] (w.db.positions.filter fun p => p.userId = userId))
  | .getPrice account paired p todo =>
    (w, pair account (paired ++ [(p, p.pnl cfg ans.price)]) todo)

end View

end CryptoExchange
