import Mathlib.Logic.Function.Basic
import CryptoExchange.Audit.Event
import CryptoExchange.Ledger.Tables
import CryptoExchange.Lib.Machine
import CryptoExchange.Risk.Leverage

/-!
# Sessions: what a handler sees and changes

A handler (a request, or one exchange event) is a state machine. Its phase names the call that it
awaits and holds its local variables, with the rows that its database session has loaded. A step
takes the answer to that call and runs to the next `await`.

* `World`: what all handlers share.
* `Answer`: what comes from outside: the exchange, ids from sequences, and whether the call fails.
* A `SELECT` reads the committed tables of that moment (`READ COMMITTED`). What a session has not
  committed stays in its phase, and reaches the tables in one step, the commit.
* A failed call ends the handler, and the session is rolled back: the tables stay as they are.

There are no row locks here. A call that waits for one is answered later, when the rows may be
others, or fails (two handlers that wait for each other); either is a step, so every run of the
database's sessions is one of these. The converse fails: an order of steps in which a call should
have waited is none of theirs (`Lib.locked` has the waiting).
-/

namespace CryptoExchange

open Lib

/-- A request that changes something at the exchange. -/
inductive ExchangeRequest where
  | newOrder (symbol : String) (side : Side) (orderType : OrderType) (quantity : ℚ)
      (limitPrice : Option ℚ)
  | reduceOnly (symbol : String) (side : Side) (quantity : ℚ)
  | cancelOrder (symbol : String) (orderId : ℤ)
  | changeMarginType (symbol : String) (marginType : MarginType)
  deriving DecidableEq

/-- The keys of the exchange's reply that the services read. -/
structure ExchangeOrder where
  orderId : Option ℤ := none
  status : Option String := none

/-- What the awaited call answers; each call reads the fields that concern it. -/
structure Answer where
  /-- The call raises. -/
  fails : Bool := false
  /-- The id that a sequence gives to the inserted row. -/
  rowId : ℕ := 0
  /-- The id that a sequence gives to the inserted trade. -/
  tradeId : ℕ := 0
  /-- The ticker's price; `none`: the request failed. -/
  price : Option PyFloat := none
  /-- The reply to an `ExchangeRequest`, or the text of the exception. -/
  exchange : Except String ExchangeOrder := .error ""
  /-- `totalWalletBalance`; an error: the request failed, or the value is no number. -/
  wallet : Except String (Option ℚ) := .error ""
  /-- The volatility state at that moment. -/
  vol : Volatility := fun _ => none

/-- A market price in an answer that satisfies `A`. -/
def Reported (A : Answer → Prop) (x : PyFloat) : Prop := ∃ a, A a ∧ x ∈ a.price

structure World where
  db : Db
  /-- The keys `exchange_order:{id}`. -/
  redis : ℕ → Option ℤ
  /-- What the exchange accepted, oldest first. -/
  placed : List ExchangeRequest
  /-- The `emit` calls, oldest first. -/
  events : List Event

/-- How a handler fails. -/
inductive Failure where
  | http (status : ℕ) (detail : String)
  | multipleResults
  | database
  | redis
  | valueError (text : String)
  deriving DecidableEq

/-- After a step: the next awaited call, or how the handler ends. -/
abbrev After (P R : Type) := Next P (Except Failure R)

namespace World

variable (w : World)

def emit (e : Event) : World := { w with events := w.events ++ [e] }

def accept (r : ExchangeRequest) : World := { w with placed := w.placed ++ [r] }

def setRedis (orderId : ℕ) (exchangeOrderId : ℤ) : World :=
  { w with redis := Function.update w.redis orderId (some exchangeOrderId) }

/-- A unit of work on the committed tables. -/
def commit (c : Column) (ws : List Write) : Option World :=
  (w.db.flush c ws).map fun db => { w with db }

theorem commit_of_flush {c : Column} {ws : List Write} {db : Db} (h : w.db.flush c ws = some db) :
    w.commit c ws = some { w with db } := by
  rw [commit, h]
  rfl

theorem commit_db {w w' : World} {c : Column} {ws : List Write} (h : w.commit c ws = some w') :
    w.db.flush c ws = some w'.db := by
  obtain ⟨db, hdb, rfl⟩ := Option.map_eq_some_iff.mp h
  exact hdb

end World

/-- `scalar_one_or_none`. -/
def scalarOneOrNone {α : Type} : List α → Except Failure (Option α)
  | [] => .ok none
  | [x] => .ok (some x)
  | _ => .error .multipleResults

theorem scalarOneOrNone_none {α : Type} {l : List α} (h : scalarOneOrNone l = .ok none) :
    l = [] := by
  rcases l with _ | ⟨x, _ | ⟨y, l⟩⟩
  · rfl
  · cases h
  · cases h

theorem scalarOneOrNone_some {α : Type} {l : List α} {x : α}
    (h : scalarOneOrNone l = .ok (some x)) : l = [x] := by
  rcases l with _ | ⟨y, _ | ⟨z, l⟩⟩
  · cases h
  · cases h; rfl
  · cases h

namespace Db

variable (db : Db)

def selectUser (id : ℤ) : List User := db.users.filter fun u => u.id = id

def selectAccount (id : ℕ) : List Account := db.accounts.filter fun a => a.id = id

def selectAccountOf (userId : ℤ) : List Account := db.accounts.filter fun a => a.userId = userId

/-- A position is live until it is closed or liquidated. -/
def livePositions : List Position := db.positions.filter fun p => !p.liquidated

def livePositionsOf (userId : ℤ) (symbol : String) : List Position :=
  db.positions.filter fun p => p.userId = userId ∧ p.symbol = symbol ∧ p.liquidated = false

def livePositionsIn (symbol : String) : List Position :=
  db.positions.filter fun p => p.symbol = symbol ∧ p.liquidated = false

/-- `user_exposure`. -/
def userExposure (userId : ℤ) : ℚ :=
  ((db.positions.filter fun p => p.userId = userId ∧ p.liquidated = false).map
    Position.notional).sum

/-- `global_exposure`. -/
def globalExposure : ℚ := (db.livePositions.map Position.notional).sum

end Db

end CryptoExchange
