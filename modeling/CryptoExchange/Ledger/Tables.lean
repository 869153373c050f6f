import CryptoExchange.Lib.Column
import CryptoExchange.Lib.Rows

/-!
# The tables of the ledger

`app/models/*.py`: users, accounts, positions, orders and trades. A `Db` is what the database
holds in committed state (or what one session sees).

A unit of work is a list of `Write`s, each an `INSERT` of a row or an `UPDATE` of one column of one
row: the ORM sends an `UPDATE` only for the columns whose value changed (`dirty`), with the value
the session computed. `Db.write` is one statement, with the rounding of the `NUMERIC(20, 8)`
columns (`Column`); an `INSERT` whose key is taken is refused, and so is an account of nobody: the
handlers insert one for any `user_id`, and the other rows for users and accounts that they have
read. `Db.flush` is a whole unit of work: all of it, or nothing.

The timestamps and the columns that no modelled function reads are left out.
-/

namespace CryptoExchange

open Lib

inductive Side where
  | buy
  | sell
  deriving DecidableEq, Repr

/-- The column's text. -/
def Side.text : Side → String
  | .buy => "buy"
  | .sell => "sell"

/-- A quantity with the side's sign. -/
def Side.signed (s : Side) (q : ℚ) : ℚ :=
  match s with
  | .buy => q
  | .sell => -q

inductive OrderType where
  | market
  | limit
  deriving DecidableEq, Repr

inductive MarginType where
  | crossed
  | isolated
  deriving DecidableEq, Repr

structure User where
  id : ℤ
  username : String
  tier : String
  role : String
  deriving DecidableEq

structure Account where
  id : ℕ
  userId : ℤ
  balance : ℚ
  marginUsed : ℚ
  deriving DecidableEq

structure Position where
  id : ℕ
  accountId : ℕ
  userId : ℤ
  symbol : String
  quantity : ℚ
  entryPrice : ℚ
  notional : ℚ
  margin : ℚ
  liquidated : Bool
  marginType : MarginType := .crossed
  deriving DecidableEq

structure Order where
  id : ℕ
  userId : ℤ
  symbol : String
  side : Side
  orderType : OrderType
  size : ℚ
  leverage : ℤ
  price : ℚ
  status : String
  deriving DecidableEq

structure Trade where
  id : ℕ
  userId : ℤ
  orderId : ℕ
  symbol : String
  side : Side
  size : ℚ
  price : ℚ
  notional : ℚ
  deriving DecidableEq

structure Db where
  users : List User
  accounts : List Account
  positions : List Position
  orders : List Order
  trades : List Trade
  deriving DecidableEq

/-! ## Statements -/

/-- One statement of a unit of work (module doc). -/
inductive Write where
  | insertAccount (a : Account)
  | setBalance (id : ℕ) (v : ℚ)
  | setMarginUsed (id : ℕ) (v : ℚ)
  | insertOrder (o : Order)
  | setStatus (id : ℕ) (s : String)
  | insertPosition (p : Position)
  | setQuantity (id : ℕ) (v : ℚ)
  | setEntryPrice (id : ℕ) (v : ℚ)
  | setNotional (id : ℕ) (v : ℚ)
  | setMargin (id : ℕ) (v : ℚ)
  | setLiquidated (id : ℕ) (v : Bool)
  | setMarginType (id : ℕ) (t : MarginType)
  | insertTrade (t : Trade)
  deriving DecidableEq

/-- The `UPDATE` of one column: sent only when the value changed. -/
def dirty {α : Type} [DecidableEq α] (old new : α) (w : Write) : List Write :=
  if new = old then [] else [w]

/-- What a session sends for an account that it loaded as `a` and that is now `a'`. -/
def updateAccount (a a' : Account) : List Write :=
  dirty a.balance a'.balance (.setBalance a.id a'.balance) ++
  dirty a.marginUsed a'.marginUsed (.setMarginUsed a.id a'.marginUsed)

/-- What a session sends for a position that it loaded as `p` and that is now `p'`. -/
def updatePosition (p p' : Position) : List Write :=
  dirty p.quantity p'.quantity (.setQuantity p.id p'.quantity) ++
  dirty p.entryPrice p'.entryPrice (.setEntryPrice p.id p'.entryPrice) ++
  dirty p.notional p'.notional (.setNotional p.id p'.notional) ++
  dirty p.margin p'.margin (.setMargin p.id p'.margin) ++
  dirty p.liquidated p'.liquidated (.setLiquidated p.id p'.liquidated) ++
  dirty p.marginType p'.marginType (.setMarginType p.id p'.marginType)

/-- What a session sends for an order that it loaded as `o` and that is now `o'`. -/
def updateOrder (o o' : Order) : List Write := dirty o.status o'.status (.setStatus o.id o'.status)

namespace Db

variable (c : Column) (db : Db)

def modifyAccount (id : ℕ) (f : Account → Account) : Db :=
  { db with accounts := modify Account.id id f db.accounts }

def modifyPosition (id : ℕ) (f : Position → Position) : Db :=
  { db with positions := modify Position.id id f db.positions }

def modifyOrder (id : ℕ) (f : Order → Order) : Db :=
  { db with orders := modify Order.id id f db.orders }

/-- A row as the `NUMERIC` columns keep it. -/
def storeAccount (a : Account) : Account :=
  { a with balance := c.store a.balance, marginUsed := c.store a.marginUsed }

def storePosition (p : Position) : Position :=
  { p with quantity := c.store p.quantity, entryPrice := c.store p.entryPrice,
           notional := c.store p.notional, margin := c.store p.margin }

def storeOrder (o : Order) : Order := { o with size := c.store o.size, price := c.store o.price }

def storeTrade (t : Trade) : Trade :=
  { t with size := c.store t.size, price := c.store t.price, notional := c.store t.notional }

/-- One statement; `none` when the primary key (or the account's unique user) is taken, or there is
no user with the account's `user_id`. -/
def write : Write → Option Db
  | .insertAccount a =>
    if db.accounts.any (fun b => b.id = a.id ∨ b.userId = a.userId) ∨
        ∀ u ∈ db.users, u.id ≠ a.userId then none
    else some { db with accounts := db.accounts ++ [storeAccount c a] }
  | .setBalance id v => some (db.modifyAccount id fun a => { a with balance := c.store v })
  | .setMarginUsed id v => some (db.modifyAccount id fun a => { a with marginUsed := c.store v })
  | .insertOrder o =>
    if db.orders.any (fun b => b.id = o.id) then none
    else some { db with orders := db.orders ++ [storeOrder c o] }
  | .setStatus id s => some (db.modifyOrder id fun o => { o with status := s })
  | .insertPosition p =>
    if db.positions.any (fun b => b.id = p.id) then none
    else some { db with positions := db.positions ++ [storePosition c p] }
  | .setQuantity id v => some (db.modifyPosition id fun p => { p with quantity := c.store v })
  | .setEntryPrice id v => some (db.modifyPosition id fun p => { p with entryPrice := c.store v })
  | .setNotional id v => some (db.modifyPosition id fun p => { p with notional := c.store v })
  | .setMargin id v => some (db.modifyPosition id fun p => { p with margin := c.store v })
  | .setLiquidated id v => some (db.modifyPosition id fun p => { p with liquidated := v })
  | .setMarginType id t => some (db.modifyPosition id fun p => { p with marginType := t })
  | .insertTrade t =>
    if db.trades.any (fun b => b.id = t.id) then none
    else some { db with trades := db.trades ++ [storeTrade c t] }

/-- A unit of work: every statement, or `none`. -/
def flush : List Write → Db → Option Db
  | [], db => some db
  | w :: ws, db => (db.write c w).bind (flush ws)

end Db

end CryptoExchange
