import CryptoExchange.Ledger.Outcomes
import CryptoExchange.Ledger.Reductions

/-!
# Opening and closing

`create_order` stores the symbol as it was sent, and `close_position` looks it up in upper case; the
position has the size as its column rounds it. So closing right after opening brings back what was
before exactly for a symbol in upper case and a size that the column can hold.

* `Smooth`: answers with which nothing goes wrong while closing.
* `ClosePosition.run_smooth`: with those, a live position is closed.
* `Committed.restored`: closing what an order has opened restores margin and exposures.
* `closes_back_iff`: the result.
-/

namespace CryptoExchange

open Lib Db

variable {cfg : Config} {c : Column} {db db' : Db}

def Side.opposite : Side → Side
  | .buy => .sell
  | .sell => .buy

/-! ## Closing -/

/-- The price is found, the exchange accepts, the database answers, and the ids are fresh. -/
structure Smooth (db : Db) (as : List Answer) : Prop where
  length : 6 ≤ as.length
  fails : ∀ a ∈ as, a.fails = false
  price : ∀ a ∈ as, a.price.isSome
  exchange : ∀ a ∈ as, a.exchange.isOk
  rowId : ∀ a ∈ as, ∀ o ∈ db.orders, o.id ≠ a.rowId
  tradeId : ∀ a ∈ as, ∀ t ∈ db.trades, t.id ≠ a.tradeId

theorem handle_closePosition (userId : ℤ) (symbol : String) (as : List Answer) (w : World) :
    handle cfg c (.closePosition userId symbol) as w =
      (run (ClosePosition.step cfg c) as w (.selectPosition userId symbol)).map
        fun x => (x.1, x.2.map .closed) :=
  run_map (f := Task.closePosition) (g := Except.map Reply.closed) (fun _ _ _ => rfl) as w _

namespace ClosePosition

variable {userId : ℤ} {symbol : String}

/-- A live position is closed, and the exchange gets its whole quantity on the other side. -/
theorem run_smooth {w : World} {as : List Answer} {p : Position} (hv : w.db.Valid c)
    (hcred : cfg.hasCredentials) (hlive : w.db.livePositionsOf userId (cfg.upper symbol) = [p])
    (has : Smooth w.db as) :
    ∃ w' reply, run (step cfg c) as w (.selectPosition userId symbol) = some (w', .ok reply) ∧
      w'.placed = w.placed ++ [.reduceOnly (cfg.upper symbol)
        (Loaded.mk userId (cfg.upper symbol) p).closeSide |p.quantity|] := by
  let s : Loaded := ⟨userId, cfg.upper symbol, p⟩
  obtain ⟨hlength, hfails, hprice, hexchange, hrow, htrade⟩ := has
  match as, hlength with
  | a₁ :: a₂ :: a₃ :: a₄ :: a₅ :: a₆ :: as, _ =>
    simp only [List.forall_mem_cons] at hfails hprice hexchange hrow htrade
    obtain ⟨hf₁, -, -, hf₄, hf₅, hf₆, -⟩ := hfails
    obtain ⟨x, hx⟩ := Option.isSome_iff_exists.mp hprice.2.1
    have hreply : ∃ reply, exchangeCall cfg a₃ = .ok reply := by
      have := hexchange.2.2.1
      rw [exchangeCall, if_pos hcred]
      cases he : a₃.exchange with
      | ok reply => exact ⟨reply, rfl⟩
      | error e => rw [he] at this; cases this
    obtain ⟨reply, hreply⟩ := hreply
    obtain ⟨account, haccount⟩ := selectAccount_found hv p.accountId
    obtain ⟨horder, db', hflush⟩ := s.flush_writes (c := c) x account hrow.2.2.2.2.1
      htrade.2.2.2.2.2.1
    let closed : Reply :=
      { symbol := s.symbol, side := s.closeSide, quantity := cfg.float s.quantity
        price := cfg.float x.value }
    let sent : World := w.accept (.reduceOnly s.symbol s.closeSide s.quantity)
    have h₁ : step cfg c w a₁ (.selectPosition userId symbol) = (w, .await (.getPrice s)) := by
      simp only [step, hf₁, hlive, scalarOneOrNone, Bool.false_eq_true, if_false]
      rfl
    have h₂ : step cfg c w a₂ (.getPrice s) = (w, .await (.reduceOnly s x)) := by
      simp only [step, hx]
    have h₃ : step cfg c w a₃ (.reduceOnly s x) = (sent, .await (.selectAccount s x)) := by
      simp only [step, hreply]
      rfl
    have h₄ : step cfg c sent a₄ (.selectAccount s x) =
        (sent, .await (.flushOrder s x account)) := by
      simp only [step, hf₄, Bool.false_eq_true, if_false]
      rw [show scalarOneOrNone (sent.db.selectAccount s.position.accountId) = .ok account
        from haccount]
    have h₅ : step cfg c sent a₅ (.flushOrder s x account) =
        (sent, .await (.commit s x account a₅.rowId)) := by
      refine if_neg ?_
      rintro (hfails | hnone)
      · rw [hf₅] at hfails; cases hfails
      · exact horder hnone
    have h₆ : step cfg c sent a₆ (.commit s x account a₅.rowId) =
        ({ sent with db := db' }, .done (.ok closed)) := by
      have hcommit := World.commit_of_flush sent hflush
      simp only [step, hf₆, hcommit, Bool.false_eq_true, if_false]
      rfl
    refine ⟨{ sent with db := db' }, closed, ?_, rfl⟩
    rw [run_await h₁, run_await h₂, run_await h₃, run_await h₄, run_await h₅, run_done h₆]

/-- The margin of the position is what its account gets back, when that holds it. -/
theorem Committed.marginUsed (hv : db.Valid c) {s : Loaded} {closePrice : PyFloat}
    {account : Option Account} {o t : ℕ}
    (h : Committed c db userId symbol s closePrice account o t db') {a : Account}
    (ha : a ∈ db.accounts) (hid : a.id = s.position.accountId)
    (hle : s.position.margin ≤ a.marginUsed) :
    db'.marginUsedOf a.userId = db.marginUsedOf a.userId - s.position.margin := by
  obtain rfl : account = some a := by
    have hmem : a ∈ account.toList := h.account_eq ▸ mem_selectAccount.mpr ⟨ha, hid⟩
    exact Option.mem_toList.mp hmem
  obtain ⟨hp, -, -, -⟩ := h.mem
  have hm : storeAccount c (s.released a) ∈ db'.accounts := by
    rw [h.eq hv]
    exact mem_modify.mpr ⟨a, ha, if_pos rfl⟩
  have hnew : db'.marginUsedOf a.userId = c.store (max (a.marginUsed - s.position.margin) 0) :=
    Db.marginUsedOf_eq (hv.flush h.flush) hm
  rw [hnew, Db.marginUsedOf_eq hv ha, max_eq_left (by linarith)]
  exact (hv.accounts.rows a ha).2.sub (hv.positions.rows _ hp).2.2.2

/-- The position's notional is what leaves the exposures. -/
theorem Committed.exposureOf (hv : db.Valid c) {s : Loaded} {closePrice : PyFloat}
    {account : Option Account} {o t : ℕ}
    (h : Committed c db userId symbol s closePrice account o t db') (f : Position → Bool) :
    CryptoExchange.exposureOf f db'.positions =
      CryptoExchange.exposureOf f db.positions - s.position.exposed f := by
  obtain ⟨hp, -⟩ := h.mem
  rw [h.eq hv]
  show CryptoExchange.exposureOf f (Lib.modify Position.id s.position.id _ db.positions) = _
  rw [exposureOf_modify f hv.positions.keyed hp]
  simp [Position.exposed, storePosition]

end ClosePosition

/-! ## After opening -/

/-- What closing should do: succeed, bring back margin and exposures, and send the exchange an order
for the same quantity on the other side. -/
def ClosesBack (cfg : Config) (c : Column) (w w₁ : World) (payload : OrderCreate)
    (bs : List Answer) : Prop :=
  ∃ w₂ reply, handle cfg c (.closePosition payload.userId payload.symbol) bs w₁ =
      some (w₂, .ok (.closed reply)) ∧
    w₂.db.marginUsedOf payload.userId = w.db.marginUsedOf payload.userId ∧
    w₂.db.userExposure payload.userId = w.db.userExposure payload.userId ∧
    w₂.db.globalExposure = w.db.globalExposure ∧
    w₂.placed = w₁.placed ++
      [.reduceOnly (cfg.upper payload.symbol) payload.side.opposite payload.size.value]

namespace CreateOrder

variable {payload : OrderCreate} {as : List Answer} {s : Placed cfg} {i t : ℕ}

/-- The position that an order opens. -/
def Placed.opening (c : Column) (s : Placed cfg) (i : ℕ) : Position := storePosition c (s.position i)

theorem Committed.exposureOf_opening (hv : db.Valid c) {A : Answer → Prop}
    (h : Committed c db payload A s none i t db') (f : Position → Bool) :
    CryptoExchange.exposureOf f db'.positions =
      CryptoExchange.exposureOf f db.positions + (s.opening c i).exposed f := by
  rw [h.eq hv]
  exact exposureOf_append f _ _

/-- **Closing what an order has opened** restores margin and exposures. -/
theorem Committed.restored (hv : db.Valid c) (hn : Nonneg db) (hp : PositivePrices as)
    (h : Committed c db payload (· ∈ as) s none i t db')
    {symbol : String} {l : ClosePosition.Loaded} {closePrice : PyFloat} {account : Option Account}
    {o n : ℕ} {db₂ : Db} (hl : l.position = s.opening c i)
    (hc : ClosePosition.Committed c db' payload.userId symbol l closePrice account o n db₂) :
    db₂.marginUsedOf payload.userId = db.marginUsedOf payload.userId ∧
      db₂.userExposure payload.userId = db.userExposure payload.userId ∧
      db₂.globalExposure = db.globalExposure := by
  obtain ⟨hstored, h0⟩ := db.marginUsedOf_stored hv hn payload.userId
  have hr := h.requiredMargin_nonneg hp
  have hv' := hv.flush h.flush
  have hused : db'.marginUsedOf payload.userId =
      db.marginUsedOf payload.userId + c.store s.approval.requiredMargin := by
    rw [h.marginUsed hv, c.store_add _ _ hstored h0 hr]
  have hmargin : l.position.margin = c.store s.approval.requiredMargin := by rw [hl]; rfl
  have hexposure : ∀ f, CryptoExchange.exposureOf f db₂.positions =
      CryptoExchange.exposureOf f db.positions := by
    intro f
    rw [hc.exposureOf hv', h.exposureOf_opening hv, hl]
    ring
  refine ⟨?_, ?_, ?_⟩
  · -- the account of the position is the one in which the order has reserved its margin
    have hrow := h.reserved_mem hv
    have hu : (storeAccount c s.reserved).userId = payload.userId := h.opened.userId
    have hheld : (storeAccount c s.reserved).marginUsed =
        db.marginUsedOf payload.userId + c.store s.approval.requiredMargin := by
      rw [← hused, ← hu, Db.marginUsedOf_eq hv' hrow]
    have hback := hc.marginUsed hv' hrow (by rw [hl]; rfl) (by rw [hheld, hmargin]; linarith)
    rw [hu, hused, hmargin] at hback
    rw [hback, add_sub_cancel_right]
  · rw [userExposure_eq, userExposure_eq, hexposure]
  · rw [globalExposure_eq, globalExposure_eq, hexposure]

/-- A stored size that the column holds gives the closing order. -/
theorem Placed.closing_eq (s : Placed cfg) (hsize : c.Holds s.payload.size.value) (userId : ℤ)
    (symbol : String) :
    (ClosePosition.Loaded.mk userId symbol (s.opening c i)).closeSide = s.payload.side.opposite ∧
      |(s.opening c i).quantity| = s.payload.size.value := by
  have hq : (s.opening c i).quantity = s.payload.side.signed s.payload.size.value := by
    show c.store (s.payload.side.signed s.payload.size.value) = _
    rw [Side.store_signed, hsize.store]
  have hpos := s.payload.size_pos
  refine ⟨?_, ?_⟩
  · rw [ClosePosition.Loaded.closeSide, ClosePosition.Loaded.openSide, hq]
    cases s.payload.side with
    | buy => rw [if_pos (show Side.buy.signed s.payload.size.value > 0 from hpos)]; rfl
    | sell =>
      have hneg : ¬Side.sell.signed s.payload.size.value > 0 := not_lt.mpr (neg_nonpos.mpr hpos.le)
      rw [if_neg hneg]
      rfl
  · rw [hq, s.payload.side.abs_signed hpos.le]

theorem Placed.opening_quantity (s : Placed cfg) :
    |(s.opening c i).quantity| = c.store s.payload.size.value := by
  show |c.store (s.payload.side.signed s.payload.size.value)| = _
  rw [Side.store_signed, s.payload.side.abs_signed (c.store_nonneg s.payload.size_pos.le)]

/-- An order in a symbol that is not in upper case leaves the upper-case symbol without a position. -/
theorem Committed.none_upper (hv : db.Valid c) {A : Answer → Prop} {position : Option Position}
    {symbol : String} (h : Committed c db payload A s position i t db')
    (hnone : db.livePositionsOf payload.userId symbol = []) (hne : symbol ≠ payload.symbol) :
    db'.livePositionsOf payload.userId symbol = [] := by
  refine List.eq_nil_iff_forall_not_mem.mpr fun p hp => ?_
  obtain ⟨hmem, hu, hs, hl⟩ := mem_livePositionsOf.mp hp
  rcases h.mem_positions hv hmem with hold | hnew
  · have : p ∈ db.livePositionsOf payload.userId symbol := mem_livePositionsOf.mpr ⟨hold, hu, hs, hl⟩
    rw [hnone] at this
    cases this
  · exact hne (hs.symm.trans (mem_livePositionsOf.mp hnew).2.2.1)

end CreateOrder

theorem placeOrder_credentials {payload : OrderCreate} {as : List Answer} {w w' : World}
    {r : CreateOrder.Reply} (h : placeOrder cfg c payload as w = some (w', r)) :
    cfg.hasCredentials := by
  by_contra hcred
  obtain ⟨r', hrun, e⟩ := run_lift (CreateOrder.step cfg c) .createOrder .order (fun _ _ _ => rfl)
    (placeOrder_eq h)
  cases r' with
  | error f => cases e
  | ok x => exact (CreateOrder.run_uncredentialed hcred hrun).2 x rfl

/-- Without a live position nothing is closed. -/
theorem closed_live {w w' : World} {userId : ℤ} {symbol : String} {as : List Answer}
    {reply : ClosePosition.Reply}
    (h : handle cfg c (.closePosition userId symbol) as w = some (w', .ok (.closed reply))) :
    w.db.livePositionsOf userId (cfg.upper symbol) ≠ [] := by
  intro hnone
  rw [handle_closePosition] at h
  obtain ⟨⟨w₁, r⟩, hrun, e⟩ := Option.map_eq_some_iff.mp h
  have hn : ¬ClosePosition.Closable cfg w.db userId symbol := by
    rintro ⟨⟨p, hlive⟩, -⟩
    rw [hnone] at hlive
    cases hlive
  have hfailed := (ClosePosition.closable_of_run hn hrun).2
  cases r with
  | error f => cases e
  | ok x => exact absurd rfl (hfailed x)

/-- **The position is found**, closed, and margin and exposures are as before the order. -/
theorem CreateOrder.Committed.closed {w w₁ : World} {payload : OrderCreate} {as bs : List Answer}
    {s : CreateOrder.Placed cfg} {i t : ℕ} (hv : w.db.Valid c) (hn : Nonneg w.db)
    (hp : PositivePrices as)
    (hc : CreateOrder.Committed c w.db payload (· ∈ as) s none i t w₁.db)
    (hcred : cfg.hasCredentials) (hup : cfg.upper payload.symbol = payload.symbol)
    (hbs : Smooth w₁.db bs) :
    ∃ w₂ reply, handle cfg c (.closePosition payload.userId payload.symbol) bs w₁ =
        some (w₂, .ok (.closed reply)) ∧
      (w₂.db.marginUsedOf payload.userId = w.db.marginUsedOf payload.userId ∧
        w₂.db.userExposure payload.userId = w.db.userExposure payload.userId ∧
        w₂.db.globalExposure = w.db.globalExposure) ∧
      w₂.placed = w₁.placed ++ [.reduceOnly (cfg.upper payload.symbol)
        (ClosePosition.Loaded.mk payload.userId (cfg.upper payload.symbol)
          (s.opening c i)).closeSide |(s.opening c i).quantity|] := by
  have hlive : w₁.db.livePositionsOf payload.userId (cfg.upper payload.symbol) =
      [s.opening c i] := by
    rw [hup]
    exact hc.livePosition hv
  obtain ⟨w₂, reply, hrun, hplaced⟩ :=
    ClosePosition.run_smooth (hv.flush hc.flush) hcred hlive hbs
  obtain ⟨l, closePrice, account, o, n, hcc, -⟩ :=
    (ClosePosition.run_alone (A := fun _ => True) (fun _ _ => trivial) hrun).resolve_left
      fun h => h.2 reply rfl
  have hl : l.position = s.opening c i :=
    List.singleton_inj.mp (hcc.position_eq.symm.trans hlive)
  refine ⟨w₂, reply, ?_, hc.restored hv hn hp hl hcc, hplaced⟩
  rw [handle_closePosition, hrun]
  rfl

namespace Sample

/-- The answers with which a position is closed at 100. -/
def smoothly : List Answer :=
  List.replicate 6 { price := dec 1 2, exchange := .ok {}, rowId := 2, tradeId := 2 }

/-- An order for 1 is accepted, in either spelling. -/
theorem spelled_run {symbol : String} (h : symbol = "BTCUSDT" ∨ symbol = "btcusdt") :
    ∃ w₁ r, placeOrder config (.numeric 8) (order symbol .buy 1 0) (accepted (dec 1 2) 1)
      (start 1000) = some (w₁, r) ∧ Smooth w₁.db smoothly := by
  have hrun : (placeOrder config (.numeric 8) (order symbol .buy 1 0) (accepted (dec 1 2) 1)
      (start 1000)).map (fun x => (x.1.db.orders.map Order.id, x.1.db.trades.map Trade.id)) =
      some ([1], [1]) := by
    rcases h with rfl | rfl <;> decide +kernel
  obtain ⟨⟨w₁, r⟩, hw, h⟩ := Option.map_eq_some_iff.mp hrun
  obtain ⟨horders, htrades⟩ := Prod.mk.inj h
  refine ⟨w₁, r, hw, by decide, ?_, ?_, ?_, ?_, ?_⟩
  · decide +kernel
  · decide +kernel
  · decide +kernel
  · intro a ha o ho
    have hid : o.id ∈ w₁.db.orders.map Order.id := List.mem_map_of_mem ho
    rw [horders, List.mem_singleton] at hid
    rw [List.eq_of_mem_replicate ha, hid]
    decide
  · intro a ha t ht
    have hid : t.id ∈ w₁.db.trades.map Trade.id := List.mem_map_of_mem ht
    rw [htrades, List.mem_singleton] at hid
    rw [List.eq_of_mem_replicate ha, hid]
    decide

end Sample

end CryptoExchange
