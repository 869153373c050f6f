import CryptoExchange.Ledger.World

/-!
# The user data stream

`app/services/user_data_stream.py`: which positions an exchange event ends (`dispatch`), and
`_apply_liquidation`, which ends the live positions in a symbol, each with its own account, in one
session. The broadcasts to clients, which follow the database work, are left out.
-/

namespace CryptoExchange

open Lib

/-! ## Dispatch -/

/-- The keys of an `ORDER_TRADE_UPDATE`'s `o` that decide what happens. -/
structure OrderUpdate where
  clientId : String := ""
  orderType : String := ""
  executionType : String := ""
  symbol : String := ""

/-- An entry of an `ACCOUNT_UPDATE`'s `P`; a missing `pa` counts as 1. -/
structure PositionUpdate where
  symbol : String := ""
  amount : Option ℚ := none

inductive StreamEvent where
  | orderTradeUpdate (o : OrderUpdate)
  | accountUpdate (positions : List PositionUpdate)
  | marginCall
  | other

def OrderUpdate.isLiquidation (o : OrderUpdate) : Bool :=
  o.orderType = "LIQUIDATION" ∨ o.executionType = "CALCULATED" ∨
  "autoclose-".toList.isPrefixOf o.clientId.toList ∨ o.clientId = "adl_autoclose"

/-- The symbols that an event's handler passes to `_apply_liquidation`, in order. -/
def StreamEvent.liquidates : StreamEvent → List String
  | .orderTradeUpdate o => if o.isLiquidation then [o.symbol] else []
  | .accountUpdate ps => (ps.filter fun p => p.amount.getD 1 = 0).map PositionUpdate.symbol
  | .marginCall | .other => []

/-! ## `_apply_liquidation` -/

namespace ApplyLiquidation

/-- An account in the session's identity map: as loaded, and its `margin_used` now. A second
`SELECT` of a loaded row leaves the object as it is. -/
structure Loaded where
  account : Account
  marginUsed : ℚ

/-- The local variables of the loop over `positions`. -/
structure Loop where
  symbol : String
  positions : List Position
  accounts : List Loaded

/-- `margin_used` of the account `id` after a release of `margin`, for the loaded accounts. -/
def release (id : ℕ) (margin : ℚ) (accounts : List Loaded) : List Loaded :=
  accounts.map fun l =>
    if l.account.id = id then { l with marginUsed := max (l.marginUsed - margin) 0 } else l

inductive Phase where
  | selectPositions (symbol : String)
  /-- The `SELECT` of the account of `p`, with the positions after `p` to do. -/
  | selectAccount (s : Loop) (p : Position) (todo : List Position)
  | commit (s : Loop)

/-- The next turn of the loop, or its end. -/
def Loop.next (s : Loop) : List Position → Phase
  | [] => .commit s
  | p :: todo => .selectAccount s p todo

/-- The turn of `p` once its account is in the identity map. -/
def Loop.turn (s : Loop) (p : Position) (todo : List Position) (accounts : List Loaded) : Phase :=
  Loop.next { s with accounts := release p.accountId p.margin accounts } todo

/-- The unit of work that the commit ends. -/
def Loop.writes (s : Loop) : List Write :=
  (s.positions.flatMap fun p => updatePosition p { p with liquidated := true }) ++
  s.accounts.flatMap fun l => updateAccount l.account { l.account with marginUsed := l.marginUsed }

def liquidatedEvent (cfg : Config) (symbol : String) (p : Position) : Event where
  eventType := "POSITION_LIQUIDATED"
  targetType := "position"
  targetId := toString p.id
  eventData := some
    [("symbol", .str symbol), ("user_id", .int p.userId), ("quantity", .str (cfg.decimal p.quantity)),
     ("notional", .str (cfg.decimal p.notional))]
  severity := "CRITICAL"

def step (cfg : Config) (c : Column) (w : World) (ans : Answer) :
    Phase → World × After Phase Unit
  | .selectPositions symbol =>
    if symbol = "" then (w, .done (.ok ()))
    else if ans.fails then (w, .done (.error .database))
    else match w.db.livePositionsIn symbol with
      | [] => (w, .done (.ok ()))
      | p :: ps => (w, .await (.selectAccount ⟨symbol, p :: ps, []⟩ p ps))
  | .selectAccount s p todo =>
    if ans.fails then (w, .done (.error .database))
    else if s.accounts.any fun l => l.account.id = p.accountId then
      (w, .await (s.turn p todo s.accounts))
    else match scalarOneOrNone (w.db.selectAccount p.accountId) with
      | .error e => (w, .done (.error e))
      | .ok none => (w, .await (s.turn p todo s.accounts))
      | .ok (some a) => (w, .await (s.turn p todo (s.accounts ++ [⟨a, a.marginUsed⟩])))
  | .commit s =>
    if ans.fails then (w, .done (.error .database))
    else match w.commit c s.writes with
      | none => (w, .done (.error .database))
      | some w =>
        (s.positions.foldl (fun w p => w.emit (liquidatedEvent cfg s.symbol p)) w,
          .done (.ok ()))

end ApplyLiquidation

end CryptoExchange
