import CryptoExchange.Ledger.Effects

/-!
# The ledger

All handlers as one machine (`Task`), and the system `ledger` in which requests and exchange events
are handled one after another. `Effect` says what one of them does to the tables; `ledger_effect`
derives it from the handlers, and every invariant of the ledger is proved from it.
-/

namespace CryptoExchange

open Lib

/-- What a handler is started for. -/
inductive Request where
  | createOrder (payload : OrderCreate)
  | closePosition (userId : ℤ) (symbol : String)
  | cancelOrder (orderId : ℕ) (userId : ℤ)
  | syncBalance (userId : ℤ)
  | setMarginType (r : SetMarginType.Request)
  | applyLiquidation (symbol : String)

/-- A handler in one of its phases. -/
inductive Task (cfg : Config) where
  | createOrder (p : CreateOrder.Phase cfg)
  | closePosition (p : ClosePosition.Phase)
  | cancelOrder (p : CancelOrder.Phase)
  | syncBalance (p : SyncBalance.Phase)
  | setMarginType (p : SetMarginType.Phase)
  | applyLiquidation (p : ApplyLiquidation.Phase)

inductive Reply where
  | order (r : CreateOrder.Reply)
  | closed (r : ClosePosition.Reply)
  | canceled (o : Order)
  | account (a : Account)
  | detail (text : String)
  | liquidated

def Request.start (cfg : Config) : Request → Task cfg
  | .createOrder payload => .createOrder (.selectUser payload)
  | .closePosition userId symbol => .closePosition (.selectPosition userId symbol)
  | .cancelOrder orderId userId => .cancelOrder (.selectOrder orderId userId)
  | .syncBalance userId => .syncBalance (.getAccount userId .select)
  | .setMarginType r => .setMarginType (.changeMarginType r)
  | .applyLiquidation symbol => .applyLiquidation (.selectPositions symbol)

/-- What a handler's step does, for the handler as one among the others. -/
def Task.lift {P R P' R' : Type} (f : P → P') (g : R → R') (x : World × After P R) :
    World × After P' R' :=
  (x.1, x.2.map f (Except.map g))

def Task.step (cfg : Config) (c : Column) (w : World) (a : Answer) :
    Task cfg → World × After (Task cfg) Reply
  | .createOrder p => Task.lift .createOrder .order (CreateOrder.step cfg c w a p)
  | .closePosition p => Task.lift .closePosition .closed (ClosePosition.step cfg c w a p)
  | .cancelOrder p => Task.lift .cancelOrder .canceled (CancelOrder.step cfg c w a p)
  | .syncBalance p => Task.lift .syncBalance .account (SyncBalance.step cfg c w a p)
  | .setMarginType p => Task.lift .setMarginType .detail (SetMarginType.step cfg c w a p)
  | .applyLiquidation p =>
    Task.lift .applyLiquidation (fun _ => .liquidated) (ApplyLiquidation.step cfg c w a p)

/-- A request handled alone, with the answers to its calls. -/
def handle (cfg : Config) (c : Column) (r : Request) (as : List Answer) (w : World) :
    Option (World × Except Failure Reply) :=
  run (Task.step cfg c) as w (r.start cfg)

/-- An order handled alone: the world and the reply, when it is accepted. -/
def placeOrder (cfg : Config) (c : Column) (payload : OrderCreate) (as : List Answer) (w : World) :
    Option (World × CreateOrder.Reply) :=
  match handle cfg c (.createOrder payload) as w with
  | some (w', .ok (.order r)) => some (w', r)
  | _ => none

theorem placeOrder_eq {cfg : Config} {c : Column} {payload : OrderCreate} {as : List Answer}
    {w w' : World} {r : CreateOrder.Reply} (h : placeOrder cfg c payload as w = some (w', r)) :
    handle cfg c (.createOrder payload) as w = some (w', .ok (.order r)) := by
  unfold placeOrder at h
  split at h
  · rename_i hs
    cases h
    exact hs
  · cases h

/-- The tables after `seed_initial_data`: accounts without reserved margin, and nothing else. -/
structure Seeded (c : Column) (db : Db) : Prop where
  valid : db.Valid c
  marginUsed : ∀ a ∈ db.accounts, a.marginUsed = 0
  balance : ∀ a ∈ db.accounts, 0 ≤ a.balance
  positions : db.positions = []
  orders : db.orders = []
  trades : db.trades = []

/-- Requests and events, each handled to its end before the next. -/
def ledger (cfg : Config) (c : Column) : Sys where
  St := World
  Act := Request × List Answer
  init w := Seeded c w.db
  step w a w' := ∃ r, handle cfg c a.1 a.2 w = some (w', r)

/-! ## Effects -/

section

variable {cfg : Config} {c : Column} {A : Answer → Prop} {db db' : Db}

/-- What handling a request alone does to the tables: nothing, or one commit. The answers
to its calls satisfy `A`. -/
inductive Effect (cfg : Config) (c : Column) (A : Answer → Prop) (db : Db) :
    Request → Db → Prop
  | same (r : Request) : Effect cfg c A db r db
  | createOrder {payload : OrderCreate} {s : CreateOrder.Placed cfg} {position : Option Position}
      {i t : ℕ} {db' : Db} : CreateOrder.Committed c db payload A s position i t db' →
      Effect cfg c A db (.createOrder payload) db'
  | closePosition {userId : ℤ} {symbol : String} {s : ClosePosition.Loaded} {closePrice : PyFloat}
      {account : Option Account} {o t : ℕ} {db' : Db} :
      ClosePosition.Committed c db userId (cfg.upper symbol) s closePrice account o t db' →
      Reported A closePrice → Effect cfg c A db (.closePosition userId symbol) db'
  | cancelOrder {orderId : ℕ} {userId : ℤ} {order : Order} {db' : Db} :
      CancelOrder.Committed c db orderId userId order db' →
      Effect cfg c A db (.cancelOrder orderId userId) db'
  | syncBalance {userId : ℤ} {o : OpenAccount} {balance : ℚ} {db' : Db} :
      SyncBalance.Committed c db userId A o balance db' →
      Effect cfg c A db (.syncBalance userId) db'
  | setMarginType {r : SetMarginType.Request} {db' : Db} :
      db.flush c (SetMarginType.writes cfg r (db.positions.filter fun p => p.userId = r.userId)) =
        some db' → Effect cfg c A db (.setMarginType r) db'
  | applyLiquidation {symbol : String} {s : ApplyLiquidation.Loop} {db' : Db} :
      ApplyLiquidation.Committed c db symbol s db' →
      Effect cfg c A db (.applyLiquidation symbol) db'

theorem Effect.valid {r : Request} (h : Effect cfg c A db r db') (hv : db.Valid c) :
    db'.Valid c := by
  cases h with
  | same => exact hv
  | createOrder h => exact hv.flush h.flush
  | closePosition h _ => exact hv.flush h.flush
  | cancelOrder h => exact hv.flush h.flush
  | syncBalance h => exact hv.flush h.flush
  | setMarginType h => exact hv.flush h
  | applyLiquidation h => exact hv.flush h.flush

/-- A handler among the others runs as it does by itself. -/
theorem run_lift {P R : Type} (step : World → Answer → P → World × After P R)
    (f : P → Task cfg) (g : R → Reply)
    (h : ∀ w a p, Task.step cfg c w a (f p) = Task.lift f g (step w a p)) {as : List Answer}
    {w w' : World} {p : P} {r : Except Failure Reply}
    (hr : run (Task.step cfg c) as w (f p) = some (w', r)) :
    ∃ r', run step as w p = some (w', r') ∧ r = r'.map g := by
  rw [run_map h] at hr
  obtain ⟨⟨w₁, r'⟩, h', e⟩ := Option.map_eq_some_iff.mp hr
  cases e
  exact ⟨r', h', rfl⟩

/-- **Effects.** A request handled alone has an effect. -/
theorem handle_effect {req : Request} {as : List Answer} {w w' : World}
    {r : Except Failure Reply} (hA : ∀ a ∈ as, A a)
    (h : handle cfg c req as w = some (w', r)) : Effect cfg c A w.db req w'.db := by
  cases req with
  | createOrder payload =>
    obtain ⟨r', h', -⟩ := run_lift (CreateOrder.step cfg c) .createOrder .order (fun _ _ _ => rfl) h
    rcases CreateOrder.run_alone hA h' with ⟨e, -⟩ | ⟨s, position, i, t, hc, -⟩
    · rw [e]; exact .same _
    · exact .createOrder hc
  | closePosition userId symbol =>
    obtain ⟨r', h', -⟩ := run_lift (ClosePosition.step cfg c) .closePosition .closed (fun _ _ _ => rfl) h
    rcases ClosePosition.run_alone hA h' with ⟨e, -⟩ | ⟨s, closePrice, account, o, t, hc, hp⟩
    · rw [e]; exact .same _
    · exact .closePosition hc hp
  | cancelOrder orderId userId =>
    obtain ⟨r', h', -⟩ := run_lift (CancelOrder.step cfg c) .cancelOrder .canceled (fun _ _ _ => rfl) h
    rcases CancelOrder.run_alone h' with ⟨e, -⟩ | ⟨order, hc⟩
    · rw [e]; exact .same _
    · exact .cancelOrder hc
  | syncBalance userId =>
    obtain ⟨r', h', -⟩ := run_lift (SyncBalance.step cfg c) .syncBalance .account (fun _ _ _ => rfl) h
    rcases SyncBalance.run_alone hA h' with e | ⟨o, balance, hc⟩
    · rw [e]; exact .same _
    · exact .syncBalance hc
  | setMarginType q =>
    obtain ⟨r', h', -⟩ := run_lift (SetMarginType.step cfg c) .setMarginType .detail (fun _ _ _ => rfl) h
    rcases SetMarginType.run_alone h' with e | hc
    · rw [e]; exact .same _
    · exact .setMarginType hc
  | applyLiquidation symbol =>
    obtain ⟨r', h', -⟩ := run_lift (ApplyLiquidation.step cfg c) .applyLiquidation
      (fun _ => .liquidated) (fun _ _ _ => rfl) h
    rcases ApplyLiquidation.run_alone h' with e | ⟨s, hc⟩
    · rw [e]; exact .same _
    · exact .applyLiquidation hc

end

/-! ## A sample exchange -/

namespace Sample

/-- One user, with an account. -/
def start (balance : ℚ) : World where
  db :=
    { users := [⟨1, "trader_1", "standard", "trader"⟩], accounts := [⟨1, 1, balance, 0⟩]
      positions := [], orders := [], trades := [] }
  redis _ := none
  placed := []
  events := []

theorem seeded {c : Column} {balance : ℚ} (h0 : 0 ≤ balance) (hb : c.Holds balance) :
    Seeded c (start balance).db where
  valid :=
    { accounts := ⟨by simp [Keyed, start], by
        intro a ha
        rw [List.mem_singleton.mp ha]
        exact ⟨hb, c.holds_zero⟩⟩
      accountUsers := by simp [Keyed, start]
      positions := ⟨List.nodup_nil, by simp [start]⟩
      orders := ⟨List.nodup_nil, by simp [start]⟩
      trades := ⟨List.nodup_nil, by simp [start]⟩ }
  marginUsed a ha := by rw [List.mem_singleton.mp ha]
  balance a ha := by rw [List.mem_singleton.mp ha]; exact h0
  positions := rfl
  orders := rfl
  trades := rfl

/-- Two users, each with an account. -/
def twoUsers (balance : ℚ) : World :=
  { start balance with
    db := { (start balance).db with
      users := [⟨1, "trader_1", "standard", "trader"⟩, ⟨2, "trader_2", "standard", "trader"⟩]
      accounts := [⟨1, 1, balance, 0⟩, ⟨2, 2, balance, 0⟩] } }

theorem twoUsers_valid {c : Column} {balance : ℚ} (h : c.Holds balance) :
    (twoUsers balance).db.Valid c where
  accounts := ⟨by simp [Keyed, twoUsers], by
    intro a ha
    rcases List.mem_cons.mp ha with rfl | ha
    · exact ⟨h, c.holds_zero⟩
    · rw [List.mem_singleton.mp ha]
      exact ⟨h, c.holds_zero⟩⟩
  accountUsers := by simp [Keyed, twoUsers]
  positions := ⟨List.nodup_nil, fun _ h => nomatch h⟩
  orders := ⟨List.nodup_nil, fun _ h => nomatch h⟩
  trades := ⟨List.nodup_nil, fun _ h => nomatch h⟩

/-- A market order of user 1. -/
def order (symbol : String) (side : Side) (d : ℕ) (e : ℤ) : OrderCreate where
  userId := 1
  symbol
  side
  size := dec d e
  size_pos := dec_pos d e
  leverage_ge := by simp
  limitPrice_pos := by simp
  limitPrice_given := by simp

/-- The answers to the calls of an accepted `create_order`, with the rows' id `n`. -/
def accepted (price : PyFloat) (n : ℕ) : List Answer :=
  [{}, {}, { price }, {}, {}, { exchange := .ok {} }, { rowId := n }, {},
    { rowId := n, tradeId := n }, {}]

end Sample

end CryptoExchange
