import CryptoExchange.Ledger.World

/-!
# Accounts

`get_or_create_account` and `sync_balance_from_exchange` (`app/services/account_service.py`), and
the route `set_margin_type` (`app/api/routes/account.py`).
-/

namespace CryptoExchange

open Lib

/-- What `get_or_create_account` returns: the account, and whether this session inserted it. -/
structure OpenAccount where
  account : Account
  fresh : Bool

namespace OpenAccount

def created (id : ℕ) (userId : ℤ) : OpenAccount := ⟨⟨id, userId, 0, 0⟩, true⟩

/-- What the session has flushed for it. -/
def writes (a : OpenAccount) : List Write := if a.fresh then [.insertAccount a.account] else []

end OpenAccount

/-- The two awaits of `get_or_create_account`: the `SELECT`, and the flush of a new account. -/
inductive GetAccount where
  | select
  | flush

def GetAccount.step (c : Column) (userId : ℤ) (w : World) (a : Answer) :
    GetAccount → After GetAccount OpenAccount
  | .select =>
    if a.fails then .done (.error .database)
    else match scalarOneOrNone (w.db.selectAccountOf userId) with
      | .error e => .done (.error e)
      | .ok (some account) => .done (.ok ⟨account, false⟩)
      | .ok none => .await .flush
  | .flush =>
    let new := OpenAccount.created a.rowId userId
    if a.fails ∨ w.db.flush c new.writes = none then .done (.error .database)
    else .done (.ok new)

/-! ## `sync_balance_from_exchange` -/

namespace SyncBalance

inductive Phase where
  | getAccount (userId : ℤ) (p : GetAccount)
  | wallet (a : OpenAccount)
  | commit (a : OpenAccount) (balance : ℚ)
  | refresh (a : OpenAccount)

def writes (a : OpenAccount) (balance : ℚ) : List Write :=
  a.writes ++ updateAccount a.account { a.account with balance }

/-- An exception after the account was found is logged and swallowed. -/
def step (cfg : Config) (c : Column) (w : World) (ans : Answer) :
    Phase → World × After Phase Account
  | .getAccount userId p =>
    match p.step c userId w ans with
    | .await p => (w, .await (.getAccount userId p))
    | .done (.error e) => (w, .done (.error e))
    | .done (.ok a) => (w, if cfg.hasCredentials then .await (.wallet a) else .done (.ok a.account))
  | .wallet a =>
    match ans.wallet with
    | .ok (some balance) => (w, .await (.commit a balance))
    | _ => (w, .done (.ok a.account))
  | .commit a balance =>
    if ans.fails then (w, .done (.ok { a.account with balance }))
    else match w.commit c (writes a balance) with
      | none => (w, .done (.ok { a.account with balance }))
      | some w => (w, .await (.refresh { a with account := { a.account with balance } }))
  | .refresh a =>
    if ans.fails then (w, .done (.ok a.account))
    else (w, .done (.ok ((findRow Account.id a.account.id w.db.accounts).getD a.account)))

end SyncBalance

/-! ## `set_margin_type` -/

def MarginType.text : MarginType → String
  | .crossed => "CROSSED"
  | .isolated => "ISOLATED"

namespace SetMarginType

/-- `ip` is the client's host. -/
structure Request where
  userId : ℤ
  symbol : String
  marginType : MarginType
  ip : Option String

inductive Phase where
  | changeMarginType (r : Request)
  | selectPositions (r : Request)
  | commit (r : Request) (positions : List Position)

/-- The positions that the loop changes. -/
def touched (cfg : Config) (r : Request) (positions : List Position) : List Position :=
  positions.filter fun p => p.symbol = cfg.upper r.symbol ∧ p.liquidated = false

def writes (cfg : Config) (r : Request) (positions : List Position) : List Write :=
  (touched cfg r positions).flatMap fun p => updatePosition p { p with marginType := r.marginType }

def changed (cfg : Config) (r : Request) : Event where
  eventType := "ACCOUNT_MARGIN_TYPE_CHANGED"
  actorId := r.userId
  targetType := "account"
  targetId := toString r.userId
  ipAddress := r.ip
  eventData := some [("symbol", .str (cfg.upper r.symbol)), ("margin_type", .str r.marginType.text)]

/-- The result is the reply's `detail`. -/
def step (cfg : Config) (c : Column) (w : World) (ans : Answer) :
    Phase → World × After Phase String
  | .changeMarginType r =>
    if ¬cfg.hasCredentials then (w, .done (.error (.http 400 "Exchange integration not configured")))
    else match ans.exchange with
      | .error text => (w, .done (.error (.http 400 text)))
      | .ok _ =>
        (w.accept (.changeMarginType (cfg.upper r.symbol) r.marginType),
          .await (.selectPositions r))
  | .selectPositions r =>
    if ans.fails then (w, .done (.error .database))
    else (w, .await (.commit r (w.db.positions.filter fun p => p.userId = r.userId)))
  | .commit r positions =>
    if ans.fails then (w, .done (.error .database))
    else match w.commit c (writes cfg r positions) with
      | none => (w, .done (.error .database))
      | some w =>
        (w.emit (changed cfg r), .done (.ok ("Margin type for " ++ cfg.upper r.symbol ++
          " set to " ++ r.marginType.text)))

end SetMarginType

end CryptoExchange
