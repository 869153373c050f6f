import CryptoExchange.Lib.Balance
import CryptoExchange.Sessions.References
import CryptoExchange.Ledger.Failures
import Mathlib.Algebra.Order.Group.Multiset

/-!
# The exchange's orders and the ledger's

`create_order` and `close_position` each send one order to the exchange, and write its row later. In
between, the call holds the order; when it fails there, the order is lost to the ledger.

* `Deal`: what an order at the exchange and its row have in common.
* `Task.inFlight`: the orders that a handler has sent and not yet written. `lostBy`: those that a
  failing step loses. `bookings` is the system of all handlers that records them.
* `books_balance`: in every state of a run, the orders that the exchange accepted are those of the rows,
  those in flight and the lost ones, each with its multiplicity. So when all calls have ended, the
  exchange and the ledger agree exactly if nothing was lost.
-/

namespace CryptoExchange

open Lib Db

variable {cfg : Config} {c : Column} {db db' : Db} {w w' : World} {a : Answer}

/-- What the exchange and the ledger both know of an order. -/
structure Deal where
  symbol : String
  side : Side
  orderType : OrderType
  size : ℚ

def Order.deal (o : Order) : Deal := ⟨o.symbol, o.side, o.orderType, o.size⟩

/-- The order that a request places; the size is as the ledger stores it. -/
def ExchangeRequest.deal (c : Column) : ExchangeRequest → List Deal
  | .newOrder symbol side orderType quantity _ => [⟨symbol, side, orderType, c.store quantity⟩]
  | .reduceOnly symbol side quantity => [⟨symbol, side, .market, c.store quantity⟩]
  | .cancelOrder _ _ | .changeMarginType _ _ => []

def deals (c : Column) (requests : List ExchangeRequest) : Multiset Deal :=
  (requests.flatMap (ExchangeRequest.deal c) : List Deal)

/-- The orders of the ledger. -/
def booked (db : Db) : Multiset Deal := (db.orders.map Order.deal : List Deal)

@[simp] theorem deals_nil : deals c [] = 0 := rfl

theorem deals_append (l l' : List ExchangeRequest) : deals c (l ++ l') = deals c l + deals c l' := by
  simp only [deals, List.flatMap_append, Multiset.coe_add]

theorem deals_accept (w : World) (r : ExchangeRequest) :
    deals c (w.accept r).placed = deals c w.placed + deals c [r] :=
  deals_append _ _

/-- The order that a statement inserts. -/
def Write.deal (c : Column) : Write → List Deal
  | .insertOrder o => [(storeOrder c o).deal]
  | _ => []

theorem write_booked {x : Write} (h : db.write c x = some db') :
    booked db' = booked db + (x.deal c : List Deal) := by
  cases x with
  | insertOrder o =>
    rw [← flush_single] at h
    obtain ⟨-, rfl⟩ := flush_insertOrder h
    simp only [booked, Write.deal, List.map_append, List.map_cons, List.map_nil, Multiset.coe_add]
  | insertAccount r | insertPosition r | insertTrade r =>
    rw [Db.write] at h
    split at h
    · cases h
    · cases h
      simp [booked, Write.deal]
  | setStatus id s =>
    cases h
    have hmap : (modify Order.id id (fun o => { o with status := s }) db.orders).map Order.deal =
        db.orders.map Order.deal := by
      refine map_modify _ (fun _ => ?_) _
      rfl
    simp only [booked, Write.deal, modifyOrder, hmap, Multiset.coe_nil, add_zero]
  | setBalance id v | setMarginUsed id v | setQuantity id v | setEntryPrice id v | setNotional id v
  | setMargin id v | setLiquidated id v | setMarginType id v =>
    cases h
    simp [booked, Write.deal, modifyAccount, modifyPosition]

theorem flush_booked {ws : List Write} (h : db.flush c ws = some db') :
    booked db' = booked db + (ws.flatMap (Write.deal c) : List Deal) := by
  induction ws generalizing db with
  | nil =>
    cases h
    simp
  | cons x ws ih =>
    obtain ⟨db₁, h₁, h₂⟩ := Option.bind_eq_some_iff.mp h
    rw [ih h₂, write_booked h₁, List.flatMap_cons, ← Multiset.coe_add, add_assoc]

theorem Write.Moves.deal {x : Write} (h : x.Moves) : x.deal c = [] := by
  cases x with
  | insertOrder o => exact h.elim
  | _ => rfl

/-! ## In flight -/

/-- The orders that the call has sent, and whose row is not committed. -/
def CreateOrder.Phase.inFlight : CreateOrder.Phase cfg → List ExchangeRequest
  | .refresh _ => []
  | p => p.accepted

def Task.inFlight : Task cfg → List ExchangeRequest
  | .createOrder p => p.inFlight
  | .closePosition p => p.accepted
  | _ => []

/-- What a handler still holds after a step from `p`, or loses with it. -/
def carried {P R : Type} (inFlight : P → List ExchangeRequest) (p : P) :
    After P R → List ExchangeRequest
  | .await q => inFlight q
  | .done (.ok _) => []
  | .done (.error _) => inFlight p

/-- `create_order` sends its order, holds it, and writes its row. -/
theorem CreateOrder.step_moves {p : CreateOrder.Phase cfg}
    {n : After (CreateOrder.Phase cfg) CreateOrder.Reply}
    (h : CreateOrder.step cfg c w a p = (w', n)) :
    deals c w'.placed + booked w.db + deals c p.inFlight =
      deals c w.placed + booked w'.db + deals c (carried CreateOrder.Phase.inFlight p n) := by
  cases CreateOrder.step_cases h with
  | failed db_eq =>
    obtain ⟨-, -, hp⟩ := CreateOrder.step_done h
    rw [hp, db_eq]
    rfl
  | refreshed => rfl
  | @accepted s reply reply_eq =>
    rw [deals_accept]
    show deals c w.placed + deals c [s.request] + booked w.db + 0 =
      deals c w.placed + booked w.db + deals c [s.request]
    abel
  | @committed s position w' commit_eq =>
    have hbooked := flush_booked (World.commit_db commit_eq)
    rw [CreateOrder.writes_flatMap (fun _ hw => hw.deal), OpenAccount.writes_flatMap fun _ => rfl]
      at hbooked
    simp only [Write.deal, ite_self, List.nil_append, List.append_nil] at hbooked
    rw [World.commit_placed commit_eq, hbooked, add_assoc]
    show _ = _ + (_ + _) + 0
    rw [add_zero]
    rfl
  | _ => rfl

/-- `close_position` sends its order, holds it, and writes its row. -/
theorem ClosePosition.step_moves {p : ClosePosition.Phase}
    {n : After ClosePosition.Phase ClosePosition.Reply}
    (h : ClosePosition.step cfg c w a p = (w', n)) :
    deals c w'.placed + booked w.db + deals c p.accepted =
      deals c w.placed + booked w'.db + deals c (carried ClosePosition.Phase.accepted p n) := by
  cases ClosePosition.step_cases h with
  | @reduced s closePrice reply reply_eq =>
    rw [deals_accept]
    show deals c w.placed + deals c [s.request] + booked w.db + 0 =
      deals c w.placed + booked w.db + deals c [s.request]
    abel
  | @committed s closePrice account orderId w' r commit_eq =>
    have hbooked := flush_booked (World.commit_db commit_eq)
    rw [ClosePosition.writes_flatMap (fun _ hw => hw.deal)] at hbooked
    simp only [Write.deal, List.append_nil] at hbooked
    rw [World.commit_placed commit_eq, hbooked, add_assoc]
    show _ = _ + (_ + _) + 0
    rw [add_zero]
    rfl
  | _ => rfl

theorem booked_moves {ws : List Write} (hws : ∀ x ∈ ws, x.Moves) (h : db.flush c ws = some db') :
    booked db' = booked db := by
  rw [flush_booked h, flatMap_of_moves (fun _ hw => hw.deal) hws, Multiset.coe_nil, add_zero]

/-- A step of a handler that places no order. -/
structure SameBooks (c : Column) (w w' : World) : Prop where
  requests : deals c w'.placed = deals c w.placed
  orders : booked w'.db = booked w.db

theorem SameBooks.commit {ws : List Write} (hws : ws.flatMap (Write.deal c) = [])
    (h : w.commit c ws = some w') : SameBooks c w w' := by
  refine ⟨by rw [World.commit_placed h], ?_⟩
  rw [flush_booked (World.commit_db h), hws, Multiset.coe_nil, add_zero]

theorem CancelOrder.same_books {p : CancelOrder.Phase} {n : After CancelOrder.Phase Order}
    (h : CancelOrder.step cfg c w a p = (w', n)) : SameBooks c w w' := by
  cases CancelOrder.step_cases h with
  | accepted => exact ⟨(deals_accept _ _).trans (add_zero _), rfl⟩
  | committed hc =>
    refine .commit (List.flatMap_eq_nil_iff.mpr fun x hx => ?_) hc
    rw [(mem_dirty hx).2]
    rfl
  | _ => exact ⟨rfl, rfl⟩

theorem SyncBalance.same_books {p : SyncBalance.Phase} {n : After SyncBalance.Phase Account}
    (h : SyncBalance.step cfg c w a p = (w', n)) : SameBooks c w w' := by
  cases SyncBalance.step_cases h with
  | @committed o balance w' hc =>
    refine .commit ?_ hc
    rw [SyncBalance.writes, List.flatMap_append, OpenAccount.writes_flatMap fun _ => rfl,
      flatMap_of_moves (fun _ hw => hw.deal) (moves_updateAccount _ _)]
    rfl
  | _ => exact ⟨rfl, rfl⟩

theorem SetMarginType.same_books {p : SetMarginType.Phase} {n : After SetMarginType.Phase String}
    (h : SetMarginType.step cfg c w a p = (w', n)) : SameBooks c w w' := by
  cases SetMarginType.step_cases h with
  | accepted => exact ⟨(deals_accept _ _).trans (add_zero _), rfl⟩
  | committed hc =>
    have hsame := SameBooks.commit (flatMap_of_moves (fun _ hw => hw.deal)
      (SetMarginType.moves_writes _ _)) hc
    exact ⟨hsame.requests, hsame.orders⟩
  | _ => exact ⟨rfl, rfl⟩

theorem ApplyLiquidation.same_books {p : ApplyLiquidation.Phase}
    {n : After ApplyLiquidation.Phase Unit} (h : ApplyLiquidation.step cfg c w a p = (w', n)) :
    SameBooks c w w' := by
  refine ⟨by rw [ApplyLiquidation.step_placed h], ?_⟩
  cases ApplyLiquidation.step_cases h with
  | committed db_eq hc =>
    rw [db_eq]
    exact booked_moves (ApplyLiquidation.moves_writes _) (World.commit_db hc)
  | _ => rfl

/-- What a handler still holds after a step, or loses with it. -/
def Task.carried (t : Task cfg) : Next (Task cfg) (Except Failure Reply) → List ExchangeRequest :=
  CryptoExchange.carried Task.inFlight t

theorem SameBooks.moves {t : Task cfg} {n : Next (Task cfg) (Except Failure Reply)}
    (h : SameBooks c w w') (ht : t.inFlight = []) (hn : t.carried n = []) :
    deals c w'.placed + booked w.db + deals c t.inFlight =
      deals c w.placed + booked w'.db + deals c (t.carried n) := by
  rw [h.requests, h.orders, ht, hn]

theorem carried_lift {P R : Type} (inFlight : P → List ExchangeRequest) {f : P → Task cfg}
    {g : R → Reply} (h : ∀ q, (f q).inFlight = inFlight q) (p : P) (n : After P R) :
    (f p).carried (n.map f (Except.map g)) = carried inFlight p n := by
  cases n with
  | await q => exact h q
  | done r =>
    cases r with
    | error e => exact h p
    | ok r => rfl

theorem carried_none {P R : Type} {f : P → Task cfg} {g : R → Reply}
    (h : ∀ q, (f q).inFlight = []) (p : P) (n : After P R) :
    (f p).carried (n.map f (Except.map g)) = [] := by
  rw [carried_lift (fun _ => []) h]
  cases n with
  | await q => rfl
  | done r => cases r <;> rfl

/-- **Step.** Whatever step a handler takes, what the exchange accepted is written, held or lost. -/
theorem Task.step_moves {t : Task cfg} {n : Next (Task cfg) (Except Failure Reply)}
    (h : Task.step cfg c w a t = (w', n)) :
    deals c w'.placed + booked w.db + deals c t.inFlight =
      deals c w.placed + booked w'.db + deals c (t.carried n) := by
  cases t with
  | createOrder p =>
    cases h
    rw [carried_lift CreateOrder.Phase.inFlight fun _ => rfl]
    exact CreateOrder.step_moves (Prod.eta _)
  | closePosition p =>
    cases h
    rw [carried_lift ClosePosition.Phase.accepted fun _ => rfl]
    exact ClosePosition.step_moves (Prod.eta _)
  | cancelOrder p =>
    cases h
    exact (CancelOrder.same_books (Prod.eta _)).moves rfl (carried_none (fun _ => rfl) _ _)
  | syncBalance p =>
    cases h
    exact (SyncBalance.same_books (Prod.eta _)).moves rfl (carried_none (fun _ => rfl) _ _)
  | setMarginType p =>
    cases h
    exact (SetMarginType.same_books (Prod.eta _)).moves rfl (carried_none (fun _ => rfl) _ _)
  | applyLiquidation p =>
    cases h
    exact (ApplyLiquidation.same_books (Prod.eta _)).moves rfl (carried_none (fun _ => rfl) _ _)

/-! ## Runs -/

/-- The orders that a step loses: the call ends with an error after the exchange accepted its order. -/
def lostBy (t : Task cfg) : Next (Task cfg) (Except Failure Reply) → List ExchangeRequest
  | .done (.error _) => t.inFlight
  | _ => []

/-- The orders that a handler holds. -/
def heldBy : Next (Task cfg) (Except Failure Reply) → List ExchangeRequest
  | .await t => t.inFlight
  | .done _ => []

theorem carried_eq (t : Task cfg) (n : Next (Task cfg) (Except Failure Reply)) :
    deals c (t.carried n) = deals c (lostBy t n) + deals c (heldBy n) := by
  cases n with
  | await q => exact (zero_add _).symm
  | done r => cases r <;> exact (add_zero _).symm

/-- All handlers, with a record of the orders that were lost. The exchange and the ledger agree at the
start. -/
abbrev bookings (cfg : Config) (c : Column) (requests : List Request) : Sys :=
  interleave (recorded (Task.step cfg c) lostBy) fun w ts =>
    deals c w.1.placed = booked w.1.db ∧ w.2 = [] ∧ ts = requests.map fun r => .await (r.start cfg)

theorem inFlight_deal {t : Task cfg} {r : ExchangeRequest} (h : r ∈ t.inFlight) :
    r.deal c ≠ [] := by
  have hnew : ∀ s : CreateOrder.Checked cfg, s.request.deal c ≠ [] := fun s => List.cons_ne_nil _ _
  have hclose : ∀ s : ClosePosition.Loaded, s.request.deal c ≠ [] := fun s => List.cons_ne_nil _ _
  cases t with
  | createOrder p =>
    cases p with
    | flushOrder s reply => rw [List.mem_singleton.mp h]; exact hnew s
    | redisSet s x => rw [List.mem_singleton.mp h]; exact hnew s.toChecked
    | selectPosition s => rw [List.mem_singleton.mp h]; exact hnew s.toChecked
    | commit s position => rw [List.mem_singleton.mp h]; exact hnew s.toChecked
    | _ => cases h
  | closePosition p =>
    cases p with
    | selectAccount s closePrice => rw [List.mem_singleton.mp h]; exact hclose s
    | flushOrder s closePrice account => rw [List.mem_singleton.mp h]; exact hclose s
    | commit s closePrice account orderId => rw [List.mem_singleton.mp h]; exact hclose s
    | _ => cases h
  | _ => cases h

/-- The lost orders are orders. -/
theorem bookings_lost {requests : List Request} :
    ((bookings cfg c requests).restrict (StepMeets fun _ _ _ => True)).Inductive fun s =>
      ∀ r ∈ s.1.2, r.deal c ≠ [] := by
  have h : ((bookings cfg c requests).restrict (StepMeets fun _ _ _ => True)).Inductive fun s =>
      (∀ r ∈ s.1.2, r.deal c ≠ []) ∧ ∀ t, .await t ∈ s.2 → True := by
    refine interleave_inductive (G := fun w : World × List ExchangeRequest => ∀ r ∈ w.2,
      r.deal c ≠ []) (T := fun _ _ => True) (fun w ts hi => ⟨?_, fun _ _ => trivial⟩)
      fun w a t w' n hG _ _ hs => ⟨?_, fun _ _ => trivial, fun _ _ => trivial⟩
    · rw [hi.2.1]
      exact List.forall_mem_nil _
    · obtain ⟨-, e⟩ := recorded_eq hs
      rw [e]
      refine List.forall_mem_append.mpr ⟨hG, fun r hr => ?_⟩
      cases n with
      | await q => cases hr
      | done x =>
        cases x with
        | error e => exact inFlight_deal hr
        | ok x => cases hr
  exact ⟨fun s hs => (h.init s hs).1, fun s act s' hs hst =>
    (h.step s act s' ⟨hs, fun _ _ => trivial⟩ hst).1⟩

/-- **Books.** In every state of a run, the orders that the exchange accepted are those of the ledger,
those that were lost and those in flight. When all calls have ended, the exchange and the ledger have
the same orders exactly if none was lost. -/
theorem books_balance {requests : List Request}
    {s : (World × List ExchangeRequest) × List (Next (Task cfg) (Except Failure Reply))}
    (h : (bookings cfg c requests).Reach s) :
    deals c s.1.1.placed =
        booked s.1.1.db + deals c s.1.2 + (s.2.map fun n => deals c (heldBy n)).sum ∧
      ((∀ n ∈ s.2, n.isDone) → (deals c s.1.1.placed = booked s.1.1.db ↔ s.1.2 = [])) := by
  have hlost : ((bookings cfg c requests).restrict (StepMeets fun _ _ _ => True)).Inductive fun s =>
      ∀ r ∈ s.1.2, r.deal c ≠ [] := bookings_lost
  have hI := interleave_balanced (fun w : World × List ExchangeRequest => deals c w.1.placed)
    (fun w => booked w.1.db + deals c w.2) (fun n => deals c (heldBy n)) hlost
    (fun w ts hi => ?_) fun s _ i a t _ _ => ?_
  · obtain ⟨hlost, hbalance⟩ := (hI.unrestrict fun _ _ _ _ => trivial).reach h
    refine ⟨hbalance, fun hdone => ?_⟩
    have hheld : (s.2.map fun n => deals c (heldBy n)).sum = 0 := by
      refine List.sum_eq_zero fun x hx => ?_
      obtain ⟨n, hn, rfl⟩ := List.mem_map.mp hx
      cases n with
      | await t => cases hdone _ hn
      | done r => rfl
    rw [hheld, add_zero] at hbalance
    rw [hbalance]
    constructor
    · intro e
      have hzero : deals c s.1.2 = 0 := by simpa using e
      refine List.eq_nil_iff_forall_not_mem.mpr fun r hr => ?_
      have hnil : s.1.2.flatMap (ExchangeRequest.deal c) = [] := Multiset.coe_eq_zero _ |>.mp hzero
      exact hlost r hr (List.flatMap_eq_nil_iff.mp hnil r hr)
    · intro e
      rw [e, deals_nil, add_zero]
  · obtain ⟨hagree, hlost, rfl⟩ := hi
    have hheld : ((requests.map fun r => (.await (r.start cfg) :
        Next (Task cfg) (Except Failure Reply))).map fun n => deals c (heldBy n)).sum = 0 := by
      refine List.sum_eq_zero fun x hx => ?_
      obtain ⟨n, hn, rfl⟩ := List.mem_map.mp hx
      obtain ⟨r, -, rfl⟩ := List.mem_map.mp hn
      cases r <;> rfl
    rw [hagree, hlost, hheld, deals_nil, add_zero, add_zero]
  · rcases hs : Task.step cfg c s.1.1 a t with ⟨w', n⟩
    have hmoves := Task.step_moves hs
    have hheld : heldBy (.await t) = t.inFlight := rfl
    simp only [recorded, hs, deals_append, hheld]
    rw [carried_eq] at hmoves
    calc _ = (deals c w'.placed + booked s.1.1.db + deals c t.inFlight) + deals c s.1.2 := by abel
      _ = _ := by
        rw [hmoves]
        abel

/-! ## A lost close -/

namespace Sample

/-- An order of user 1, and a close whose commit fails. -/
def orderAndClose : List Request :=
  [.createOrder (order "BTCUSDT" .buy 1 0), .closePosition 1 "BTCUSDT"]

def failedClose : List (ℕ × Answer) :=
  let close : List Answer := [{}, { price := dec 1 2 }, { exchange := .ok {} }, {}, { rowId := 3 },
    { fails := true }]
  (accepted (dec 1 2) 1).map ((0, ·)) ++ close.map ((1, ·))

end Sample

open Sample in
/-- The exchange accepted two orders, and the ledger has one. -/
theorem books_balance_failedClose :
    ∃ s, (bookings config (.numeric 8) orderAndClose).Reach s ∧ (∀ n ∈ s.2, n.isDone) ∧
      s.1.1.placed.length = 2 ∧ s.1.1.db.orders.length = 1 ∧ s.1.2.length = 1 ∧
      (deals (.numeric 8) s.1.1.placed = booked s.1.1.db + deals (.numeric 8) s.1.2 +
          (s.2.map fun n => deals (.numeric 8) (heldBy n)).sum ∧
        ((∀ n ∈ s.2, n.isDone) →
          (deals (.numeric 8) s.1.1.placed = booked s.1.1.db ↔ s.1.2 = []))) := by
  let f := exec (recorded (Task.step config (.numeric 8)) lostBy) fun _ _ _ => True
  let start : (World × List ExchangeRequest) × List (Next (Task config) (Except Failure Reply)) :=
    ((start 1000, []), orderAndClose.map fun r => .await (r.start config))
  have hrun : (failedClose.foldlM f start).map (fun s => (s.2.all Next.isDone,
      s.1.1.placed.length, s.1.1.db.orders.length, s.1.2.length)) = some (true, 2, 1, 1) := by
    decide +kernel
  obtain ⟨s, hs, h⟩ := Option.map_eq_some_iff.mp hrun
  simp only [Prod.mk.injEq, List.all_eq_true] at h
  obtain ⟨hdone, hplaced, horders, hlost⟩ := h
  have hreach : (bookings config (.numeric 8) orderAndClose).Reach s :=
    .foldlM (f := f) (fun _ _ _ _ h => (exec_step h).2) (.init ⟨rfl, rfl, rfl⟩) hs
  exact ⟨s, hreach, hdone, hplaced, horders, hlost, books_balance hreach⟩

end CryptoExchange
