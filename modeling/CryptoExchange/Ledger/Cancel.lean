import CryptoExchange.Ledger.Exposure
import CryptoExchange.Ledger.Margin

/-!
# Cancelling an order

`create_order` books margin, position and trade for every status of the exchange, and `cancel_order`
changes the order's status only. So a cancelled order leaves what it booked: the ledger is as before
exactly when the order had booked nothing that a column can hold (`Unmoved`).
-/

namespace CryptoExchange

open Lib Db

variable {cfg : Config} {c : Column} {db db' : Db}

/-! ## What is to be restored -/

/-- The columns of a position that a cancelled order should leave as they were. -/
def Position.view (p : Position) : String × ℚ × ℚ × ℚ × ℚ :=
  (p.symbol, p.quantity, p.entryPrice, p.notional, p.margin)

/-- The user's live positions. -/
def Db.liveViews (db : Db) (userId : ℤ) : List (String × ℚ × ℚ × ℚ × ℚ) :=
  (db.positions.filter fun p => p.userId = userId ∧ p.liquidated = false).map Position.view

/-- What cancelling should bring back. -/
structure Restored (db db' : Db) (userId : ℤ) : Prop where
  marginUsed : db'.marginUsedOf userId = db.marginUsedOf userId
  positions : db'.liveViews userId = db.liveViews userId
  userExposure : db'.userExposure userId = db.userExposure userId
  globalExposure : db'.globalExposure = db.globalExposure

/-- The margin that an order of this price reserves. -/
def OrderCreate.margin (cfg : Config) (vol : Volatility) (user : User) (o : OrderCreate)
    (price : ℚ) : ℚ :=
  o.size.value * price / orderLeverage o.leverage
    (getMaxLeverage cfg vol (riskTier cfg user) (o.size.value * price) o.symbol)

/-- The order adds to a live position, and every column rounds to what it was. -/
def Unmoved (c : Column) (db : Db) (payload : OrderCreate) (price margin : ℚ) : Prop :=
  c.store (db.marginUsedOf payload.userId + margin) = db.marginUsedOf payload.userId ∧
  ∃ p, db.livePositionsOf payload.userId payload.symbol = [p] ∧
    let newQty := p.quantity + payload.side.signed payload.size.value
    c.store newQty = p.quantity ∧ c.store price = p.entryPrice ∧
      c.store (|newQty| * price) = p.notional ∧ c.store (p.margin + margin) = p.margin

/-! ## After `create_order` -/

namespace CreateOrder

variable {payload : OrderCreate} {A : Answer → Prop} {s : Placed cfg}
  {position : Option Position} {i t : ℕ}

/-- The user's account, after the commit. -/
theorem Committed.reserved_mem (hv : db.Valid c)
    (h : Committed c db payload A s position i t db') :
    storeAccount c s.reserved ∈ db'.accounts := by
  rw [h.eq hv]
  exact mem_modify.mpr ⟨s.account, h.opened.mem, if_pos rfl⟩

theorem Committed.marginUsed (hv : db.Valid c)
    (h : Committed c db payload A s position i t db') :
    db'.marginUsedOf payload.userId =
      c.store (db.marginUsedOf payload.userId + s.approval.requiredMargin) := by
  have hu : s.account.userId = payload.userId := h.opened.userId
  have hm : s.account.marginUsed = db.marginUsedOf payload.userId := h.opened.marginUsed hv
  rw [← hm, ← hu]
  exact Db.marginUsedOf_eq (hv.flush h.flush) (h.reserved_mem hv)

/-- The user's live positions are as before exactly when there was one in the symbol, and the
order moved none of its columns. -/
theorem Committed.liveViews_iff (hv : db.Valid c)
    (h : Committed c db payload A s position i t db') :
    db'.liveViews payload.userId = db.liveViews payload.userId ↔
      ∃ p, position = some p ∧ (storePosition c (s.added p)).view = p.view := by
  have e : payload = s.payload := h.payload_eq.symm
  rw [h.eq hv]
  unfold Db.liveViews
  show ((s.positions c position i db.positions).filter _).map _ = _ ↔ _
  cases position with
  | none =>
    have hnew : decide ((storePosition c (s.position i)).userId = payload.userId ∧
        (storePosition c (s.position i)).liquidated = false) = true := by
      rw [e]; simp [storePosition, Placed.position]
    constructor
    · intro heq
      have := congrArg List.length heq
      simp only [Placed.positions, List.filter_append, List.filter_cons, hnew, if_true,
        List.map_append, List.length_append] at this
      simp at this
    · rintro ⟨p, hp, -⟩; cases hp
  | some p =>
    obtain ⟨hp, hu, -, hl⟩ := h.mem
    rw [← e] at hu
    have hfilter : (s.positions c (some p) i db.positions).filter
        (fun q => q.userId = payload.userId ∧ q.liquidated = false) =
        Lib.modify Position.id p.id (fun _ => storePosition c (s.added p))
          (db.positions.filter fun q => q.userId = payload.userId ∧ q.liquidated = false) :=
      hv.positions.keyed.filter_modify hp rfl
    rw [hfilter, Lib.modify, List.map_map, List.map_inj_left]
    constructor
    · intro hall
      have := hall p (List.mem_filter.mpr ⟨hp, by simp [hu, hl]⟩)
      simp only [Function.comp, if_true] at this
      exact ⟨p, rfl, this⟩
    · rintro ⟨q, hq, hview⟩ r hr
      cases hq
      simp only [Function.comp]
      split
      · rename_i hid
        rw [hv.positions.keyed.eq_of_key (List.mem_filter.mp hr).1 hp hid]
        exact hview
      · rfl

/-- An order that moves no column of its position keeps the exposures. -/
theorem Committed.exposure_same (hv : db.Valid c) {p : Position}
    (h : Committed c db payload A s (some p) i t db')
    (hview : (storePosition c (s.added p)).view = p.view) (f : Position → Bool)
    (hf : f (storePosition c (s.added p)) = f p) :
    CryptoExchange.exposureOf f db'.positions = CryptoExchange.exposureOf f db.positions := by
  obtain ⟨hp, -⟩ := h.mem
  rw [h.eq hv]
  show CryptoExchange.exposureOf f (s.positions c (some p) i db.positions) = _
  rw [Placed.positions, exposureOf_modify f hv.positions.keyed hp]
  have hn : (storePosition c (s.added p)).notional = p.notional := by
    simp only [Position.view, Prod.mk.injEq] at hview
    exact hview.2.2.2.1
  have hl : (storePosition c (s.added p)).liquidated = p.liquidated := rfl
  rw [Position.exposed, Position.exposed, hf, hl, hn]
  ring

theorem Committed.restored_iff (hv : db.Valid c)
    (h : Committed c db payload A s position i t db') :
    Restored db db' payload.userId ↔
      Unmoved c db payload s.price s.approval.requiredMargin := by
  have e : payload = s.payload := h.payload_eq.symm
  have hmargin := h.marginUsed hv
  have hviews := h.liveViews_iff hv
  have view_iff : ∀ p : Position, (storePosition c (s.added p)).view = p.view ↔
      c.store (p.quantity + payload.side.signed payload.size.value) = p.quantity ∧
      c.store s.price = p.entryPrice ∧
      c.store (|p.quantity + payload.side.signed payload.size.value| * s.price) = p.notional ∧
      c.store (p.margin + s.approval.requiredMargin) = p.margin := by
    intro p
    rw [e]
    simp only [Position.view, storePosition, Placed.added, Prod.mk.injEq, true_and]
    rfl
  constructor
  · intro hr
    obtain ⟨p, rfl, hview⟩ := hviews.mp hr.positions
    exact ⟨hmargin ▸ hr.marginUsed, p, h.position_eq, (view_iff p).mp hview⟩
  · rintro ⟨hm, p, hp, hcols⟩
    rw [h.position_eq] at hp
    cases position with
    | none => cases hp
    | some q =>
      cases hp
      have hview := (view_iff p).mpr hcols
      refine ⟨hmargin.trans hm, hviews.mpr ⟨p, rfl, hview⟩, ?_, ?_⟩
      · rw [userExposure_eq, userExposure_eq]
        exact h.exposure_same hv hview _ rfl
      · rw [globalExposure_eq, globalExposure_eq]
        exact h.exposure_same hv hview _ rfl

theorem Committed.requiredMargin_eq (h : Committed c db payload A s position i t db') :
    s.approval.requiredMargin = payload.margin cfg s.vol s.user s.price := by
  rw [s.approved.requiredMargin, s.approved.leverage, ← h.payload_eq]
  rfl

end CreateOrder

/-! ## After `cancel_order` -/

/-- A cancellation changes nothing but orders. -/
theorem Effect.orders {A : Answer → Prop} (hv : db.Valid c) {orderId : ℕ} {userId : ℤ}
    (h : Effect cfg c A db (.cancelOrder orderId userId) db') : ∃ orders, db' = { db with orders } := by
  cases h with
  | same => exact ⟨db.orders, rfl⟩
  | cancelOrder hc =>
    obtain ⟨-, -, -, e⟩ := hc.eq hv
    exact ⟨_, e⟩

theorem restored_orders {db₁ : Db} {userId : ℤ} (orders : List Order) :
    Restored db { db₁ with orders } userId ↔ Restored db db₁ userId :=
  ⟨fun h => ⟨h.1, h.2, h.3, h.4⟩, fun h => ⟨h.1, h.2, h.3, h.4⟩⟩

namespace Sample

/-- A limit order of 1 at 100. -/
def limitOrder : OrderCreate :=
  { order "BTCUSDT" .buy 1 0 with
    orderType := .limit
    limitPrice := some (dec 1 2)
    limitPrice_pos := by decide +kernel
    limitPrice_given := by simp }

/-- The answers of an exchange that lets it rest. -/
def resting : List Answer :=
  [{}, {}, { price := dec 1 2 }, {}, {}, { exchange := .ok { orderId := some 77, status := "NEW" } },
    { rowId := 1 }, {}, {}, { rowId := 1, tradeId := 1 }, {}]

/-- The order rests, and is cancelled; its margin stays reserved. -/
theorem limitOrder_canceled :
    ∃ w₁ w₂ r o, handle config (.numeric 8) (.createOrder limitOrder) resting (start 1000) =
        some (w₁, .ok (.order r)) ∧ r.order.status = "NEW" ∧
      handle config (.numeric 8) (.cancelOrder r.order.id 1)
        [{}, {}, { exchange := .ok {} }, {}, {}] w₁ = some (w₂, .ok o) ∧
      w₂.db.marginUsedOf 1 = 10 := by
  have hrun : ((placeOrder config (.numeric 8) limitOrder resting (start 1000)).bind fun x =>
      (handle config (.numeric 8) (.cancelOrder x.2.order.id 1)
        [{}, {}, { exchange := .ok {} }, {}, {}] x.1).map fun y =>
          (x.2.order.status, y.2.isOk, y.1.db.marginUsedOf 1)) = some ("NEW", true, 10) := by
    decide +kernel
  obtain ⟨⟨w₁, r⟩, hw₁, h⟩ := Option.bind_eq_some_iff.mp hrun
  obtain ⟨⟨w₂, _ | o⟩, hw₂, h⟩ := Option.map_eq_some_iff.mp h
  · simp [Except.isOk, Except.toBool] at h
  · simp only [Prod.mk.injEq] at h
    exact ⟨w₁, w₂, r, o, placeOrder_eq hw₁, h.1, hw₂, h.2.2⟩

end Sample

end CryptoExchange
