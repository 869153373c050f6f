import CryptoExchange.Ledger.Service

/-!
# Trades and positions

The trades of a user in a symbol add up to the quantity of the live position and of the positions
that liquidations ended: a liquidation ends a position without a trade. Which positions those are
is a history variable (`ledgerWithEnded`); the tables do not say.
-/

namespace CryptoExchange

open Lib Db

variable {cfg : Config} {c : Column} {db db' : Db}

/-! ## Sums -/

/-- The trades of the user in the symbol, with their sides' signs. -/
def Db.signedTrades (db : Db) (userId : ℤ) (symbol : String) : ℚ :=
  ((db.trades.filter fun t => t.userId = userId ∧ t.symbol = symbol).map fun t =>
    t.side.signed t.size).sum

def Db.liveQuantity (db : Db) (userId : ℤ) (symbol : String) : ℚ :=
  ((db.livePositionsOf userId symbol).map Position.quantity).sum

/-- The quantities of the user's positions in the symbol with an id in `ended`. -/
def Db.endedQuantity (db : Db) (ended : List ℕ) (userId : ℤ) (symbol : String) : ℚ :=
  ((db.positions.filter fun p => p.userId = userId ∧ p.symbol = symbol ∧ p.id ∈ ended).map
    Position.quantity).sum

/-- A position's part in the balance of trades. -/
def Position.counted (ended : List ℕ) (userId : ℤ) (symbol : String) (p : Position) : ℚ :=
  if p.userId = userId ∧ p.symbol = symbol ∧ (p.liquidated = false ∨ p.id ∈ ended) then p.quantity
  else 0

def countedQuantity (ps : List Position) (ended : List ℕ) (userId : ℤ) (symbol : String) : ℚ :=
  (ps.map (Position.counted ended userId symbol)).sum

theorem countedQuantity_append (ps : List Position) (p : Position) (ended : List ℕ) (userId : ℤ)
    (symbol : String) : countedQuantity (ps ++ [p]) ended userId symbol =
      countedQuantity ps ended userId symbol + p.counted ended userId symbol := by
  simp [countedQuantity]

theorem countedQuantity_modify {ps : List Position} (hk : Keyed Position.id ps) {p : Position}
    (hp : p ∈ ps) (f : Position → Position) (ended : List ℕ) (userId : ℤ) (symbol : String) :
    countedQuantity (modify Position.id p.id f ps) ended userId symbol =
      countedQuantity ps ended userId symbol - p.counted ended userId symbol +
        (f p).counted ended userId symbol :=
  sum_modify (Position.counted ended userId symbol) hk hp rfl

/-- A trade's part in the sum of the user in the symbol. -/
def Trade.counted (userId : ℤ) (symbol : String) (t : Trade) : ℚ :=
  if t.userId = userId ∧ t.symbol = symbol then t.side.signed t.size else 0

theorem signedTrades_eq (userId : ℤ) (symbol : String) :
    db.signedTrades userId symbol = (db.trades.map (Trade.counted userId symbol)).sum := by
  simp only [signedTrades, sum_filter, decide_eq_true_eq]
  rfl

theorem signedTrades_append {ts : List Trade} {t : Trade} (h : db'.trades = ts ++ [t])
    (h' : db.trades = ts) (userId : ℤ) (symbol : String) :
    db'.signedTrades userId symbol =
      db.signedTrades userId symbol + t.counted userId symbol := by
  rw [signedTrades_eq, signedTrades_eq, h, h']
  simp

/-! ## The invariant -/

/-- At most one live position of a user in a symbol. -/
def Single (ps : List Position) : Prop :=
  ∀ p ∈ ps, ∀ q ∈ ps, p.liquidated = false → q.liquidated = false →
    p.userId = q.userId → p.symbol = q.symbol → p = q

/-- The trade is of the order. -/
structure Trade.Of (t : Trade) (o : Order) : Prop where
  id : o.id = t.orderId
  userId : o.userId = t.userId
  symbol : o.symbol = t.symbol
  side : o.side = t.side
  size : o.size = t.size

structure Agrees (c : Column) (db : Db) (ended : List ℕ) : Prop where
  valid : db.Valid c
  single : Single db.positions
  ended_dead : ∀ i ∈ ended, ∃ p ∈ db.positions, p.id = i ∧ p.liquidated = true
  conserved : ∀ userId symbol,
    db.signedTrades userId symbol = countedQuantity db.positions ended userId symbol
  notional : ∀ p ∈ db.positions, p.notional = c.store (|p.quantity| * p.entryPrice)
  matched : ∀ t ∈ db.trades, ∃ o ∈ db.orders, t.Of o

/-- A live position is in no liquidation's list. -/
theorem Agrees.not_ended {ended : List ℕ} (h : Agrees c db ended) {p : Position}
    (hp : p ∈ db.positions) (hl : p.liquidated = false) : p.id ∉ ended := by
  intro hm
  obtain ⟨q, hq, e, hd⟩ := h.ended_dead _ hm
  rw [h.valid.positions.keyed.eq_of_key hq hp e, hl] at hd
  cases hd

/-- What the invariant says in the terms of the tables. -/
theorem Agrees.signedTrades {ended : List ℕ} (h : Agrees c db ended) (userId : ℤ)
    (symbol : String) : db.signedTrades userId symbol =
      db.liveQuantity userId symbol + db.endedQuantity ended userId symbol := by
  rw [h.conserved, countedQuantity, liveQuantity, endedQuantity, livePositionsOf, sum_filter,
    sum_filter, ← List.sum_map_add]
  congr 1
  refine List.map_congr_left fun p hp => ?_
  simp only [decide_eq_true_eq, Position.counted]
  cases hl : p.liquidated with
  | false =>
    have := h.not_ended hp hl
    by_cases hu : p.userId = userId ∧ p.symbol = symbol
    · simp [hu, this]
    · simp [this]
  | true => simp

theorem Agrees.length_le_one {ended : List ℕ} (h : Agrees c db ended) (userId : ℤ)
    (symbol : String) : (db.livePositionsOf userId symbol).length ≤ 1 := by
  have hn : (db.livePositionsOf userId symbol).Nodup :=
    (h.valid.positions.keyed.of_map _).filter _
  have hm : ∀ p ∈ db.livePositionsOf userId symbol, p ∈ db.positions ∧ p.userId = userId ∧
      p.symbol = symbol ∧ p.liquidated = false := fun p => mem_livePositionsOf.mp
  rcases hl : db.livePositionsOf userId symbol with _ | ⟨p, _ | ⟨q, l⟩⟩
  · simp
  · simp
  · rw [hl] at hn hm
    obtain ⟨hp, hpu, hps, hpl⟩ := hm p (by simp)
    obtain ⟨hq, hqu, hqs, hql⟩ := hm q (by simp)
    have := h.single p hp q hq hpl hql (hpu.trans hqu.symm) (hps.trans hqs.symm)
    simp [this] at hn

/-! ## What keeps the parts of the invariant -/

/-- Updates that bring no position back to life. -/
theorem Single.map {ps : List Position} (h : Single ps) {g : Position → Position}
    (hg : ∀ p ∈ ps, (g p).userId = p.userId ∧ (g p).symbol = p.symbol ∧
      ((g p).liquidated = false → p.liquidated = false)) : Single (ps.map g) := by
  intro p' hp' q' hq' hpl hql hu hs
  obtain ⟨p, hp, rfl⟩ := List.mem_map.mp hp'
  obtain ⟨q, hq, rfl⟩ := List.mem_map.mp hq'
  obtain ⟨hpu, hps, hpl'⟩ := hg p hp
  obtain ⟨hqu, hqs, hql'⟩ := hg q hq
  rw [h p hp q hq (hpl' hpl) (hql' hql) (by rw [← hpu, hu, hqu]) (by rw [← hps, hs, hqs])]

theorem Single.append {ps : List Position} (h : Single ps) {p : Position}
    (hp : ∀ q ∈ ps, q.liquidated = false → q.userId = p.userId → q.symbol ≠ p.symbol) :
    Single (ps ++ [p]) := by
  intro q hq r hr hql hrl hu hs
  rcases List.mem_append.mp hq with hq | hq <;> rcases List.mem_append.mp hr with hr | hr
  · exact h q hq r hr hql hrl hu hs
  · rw [List.mem_singleton.mp hr] at hu hs
    exact absurd hs (hp q hq hql hu)
  · rw [List.mem_singleton.mp hq] at hu hs
    exact absurd hs.symm (hp r hr hrl hu.symm)
  · rw [List.mem_singleton.mp hq, List.mem_singleton.mp hr]

theorem dead_map {ps : List Position} {ended : List ℕ}
    (h : ∀ i ∈ ended, ∃ p ∈ ps, p.id = i ∧ p.liquidated = true) {g : Position → Position}
    (hg : ∀ p ∈ ps, (g p).id = p.id ∧ (p.liquidated = true → (g p).liquidated = true)) :
    ∀ i ∈ ended, ∃ p ∈ ps.map g, p.id = i ∧ p.liquidated = true := by
  intro i hi
  obtain ⟨p, hp, e, hl⟩ := h i hi
  obtain ⟨hid, hl'⟩ := hg p hp
  exact ⟨g p, List.mem_map_of_mem hp, hid.trans e, hl' hl⟩

theorem matched_append {ts : List Trade} {os : List Order}
    (h : ∀ t ∈ ts, ∃ o ∈ os, t.Of o) {t : Trade} {o : Order} (ht : t.Of o) :
    ∀ t' ∈ ts ++ [t], ∃ o' ∈ os ++ [o], t'.Of o' := by
  intro t' ht'
  rcases List.mem_append.mp ht' with ht' | ht'
  · obtain ⟨o', ho', hof⟩ := h t' ht'
    exact ⟨o', List.mem_append_left _ ho', hof⟩
  · rw [List.mem_singleton.mp ht']
    exact ⟨o, List.mem_append_right _ List.mem_cons_self, ht⟩

/-! ## The effects -/

namespace CreateOrder

variable {payload : OrderCreate} {A : Answer → Prop} {s : Placed cfg}
  {position : Option Position} {i t : ℕ} {ended : List ℕ}

theorem Committed.none_live (h : Committed c db payload A s none i t db') :
    ∀ q ∈ db.positions, q.liquidated = false → q.userId = s.payload.userId →
      q.symbol ≠ s.payload.symbol := by
  intro q hq hl hu hs
  rw [h.payload_eq] at hu hs
  have : q ∈ db.livePositionsOf payload.userId payload.symbol :=
    mem_livePositionsOf.mpr ⟨hq, hu, hs, hl⟩
  rw [h.position_eq] at this
  cases this

theorem Placed.holds_signedQty (hsize : c.Holds s.orderSize) : c.Holds s.signedQty := by
  unfold signedQty Side.signed
  split
  · exact hsize
  · exact hsize.neg

theorem Committed.single (hv : db.Valid c) (h : Committed c db payload A s position i t db')
    (hs : Single db.positions) : Single (s.positions c position i db.positions) := by
  cases position with
  | none => exact hs.append h.none_live
  | some p =>
    obtain ⟨hp, -, -, hl⟩ := h.mem
    refine hs.map fun q hq => ?_
    split
    · rename_i e
      rw [hv.positions.keyed.eq_of_key hq hp e]
      exact ⟨rfl, rfl, id⟩
    · exact ⟨rfl, rfl, id⟩

theorem Committed.dead (hv : db.Valid c) (h : Committed c db payload A s position i t db')
    (hd : ∀ j ∈ ended, ∃ p ∈ db.positions, p.id = j ∧ p.liquidated = true) :
    ∀ j ∈ ended, ∃ p ∈ s.positions c position i db.positions, p.id = j ∧ p.liquidated = true := by
  cases position with
  | none =>
    intro j hj
    obtain ⟨p, hp, e⟩ := hd j hj
    exact ⟨p, List.mem_append_left _ hp, e⟩
  | some p =>
    obtain ⟨hp, -, -, hl⟩ := h.mem
    refine dead_map hd fun q hq => ?_
    split
    · rename_i e
      rw [hv.positions.keyed.eq_of_key hq hp e]
      exact ⟨rfl, id⟩
    · exact ⟨rfl, id⟩

/-- The order's signed size is added to the user's quantity in the symbol. -/
theorem Committed.counted (hv : db.Valid c) (h : Committed c db payload A s position i t db')
    (hsize : c.Holds s.orderSize) (u : ℤ) (sym : String) :
    countedQuantity (s.positions c position i db.positions) ended u sym =
      countedQuantity db.positions ended u sym +
        if s.payload.userId = u ∧ s.payload.symbol = sym then s.signedQty else 0 := by
  have hq := s.holds_signedQty hsize
  cases position with
  | none =>
    rw [Placed.positions, countedQuantity_append]
    simp [Position.counted, storePosition, Placed.position, hq.store]
  | some p =>
    obtain ⟨hp, hu, hs, hl⟩ := h.mem
    have hadd : c.store (p.quantity + s.signedQty) = p.quantity + s.signedQty :=
      ((hv.positions.rows p hp).1.add hq).store
    rw [Placed.positions, countedQuantity_modify hv.positions.keyed hp]
    simp only [Position.counted, storePosition, Placed.added, hl, hadd, hu, hs, true_or, and_true]
    split <;> ring

theorem Committed.notional (hv : db.Valid c) (h : Committed c db payload A s position i t db')
    (hsize : c.Holds s.orderSize) (hprice : c.Holds s.price)
    (hn : ∀ p ∈ db.positions, p.notional = c.store (|p.quantity| * p.entryPrice)) :
    ∀ p ∈ s.positions c position i db.positions,
      p.notional = c.store (|p.quantity| * p.entryPrice) := by
  have hq := s.holds_signedQty hsize
  intro p' hp'
  cases position with
  | none =>
    rcases List.mem_append.mp hp' with hp' | hp'
    · exact hn p' hp'
    · rw [List.mem_singleton.mp hp']
      simp only [storePosition, Placed.position, hq.store, hprice.store]
  | some p =>
    obtain ⟨hp, -, -, -⟩ := h.mem
    obtain ⟨q, hqm, rfl⟩ := mem_modify.mp hp'
    split
    · have hadd : c.store (p.quantity + s.signedQty) = p.quantity + s.signedQty :=
        ((hv.positions.rows p hp).1.add hq).store
      simp only [storePosition, Placed.added, hadd, hprice.store]
    · exact hn q hqm

end CreateOrder

theorem Agrees.createOrder {ended : List ℕ} (h : Agrees c db ended) {payload : OrderCreate}
    {A : Answer → Prop} {s : CreateOrder.Placed cfg} {position : Option Position} {i t : ℕ}
    (hc : CreateOrder.Committed c db payload A s position i t db')
    (hsize : c.Holds s.orderSize) (hprice : c.Holds s.price) : Agrees c db' ended := by
  have hv := h.valid.flush hc.flush
  have e := hc.eq h.valid
  subst e
  refine ⟨hv, hc.single h.valid h.single, hc.dead h.valid h.ended_dead, fun u sym => ?_,
    hc.notional h.valid hsize hprice h.notional, matched_append h.matched ⟨rfl, rfl, rfl, rfl, rfl⟩⟩
  show _ = countedQuantity (s.positions c position i db.positions) ended u sym
  rw [hc.counted h.valid hsize, signedTrades_append rfl rfl, h.conserved]
  simp [Trade.counted, storeTrade, CreateOrder.Placed.trade, CreateOrder.Placed.signedQty,
    hsize.store]

/-- The closing trade undoes the position. -/
theorem ClosePosition.Loaded.signed_quantity (s : ClosePosition.Loaded) :
    s.closeSide.signed s.quantity = -s.position.quantity := by
  unfold closeSide openSide quantity
  by_cases hq : s.position.quantity > 0
  · rw [if_pos hq, abs_of_pos hq]
    rfl
  · rw [if_neg hq, abs_of_nonpos (not_lt.mp hq)]
    rfl

theorem Agrees.closePosition {ended : List ℕ} (h : Agrees c db ended) {userId : ℤ}
    {symbol : String} {s : ClosePosition.Loaded} {closePrice : PyFloat} {account : Option Account}
    {o t : ℕ} (hc : ClosePosition.Committed c db userId symbol s closePrice account o t db') :
    Agrees c db' ended := by
  have hv := h.valid.flush hc.flush
  have e := hc.eq h.valid
  subst e
  obtain ⟨hp, hu, hs, hl⟩ := hc.mem
  have stored := h.valid.positions.rows _ hp
  have same : ∀ q ∈ db.positions, q.id = s.position.id → q = s.position :=
    fun q hq e => h.valid.positions.keyed.eq_of_key hq hp e
  refine ⟨hv, ?_, ?_, fun u sym => ?_, ?_, matched_append h.matched ⟨rfl, rfl, rfl, rfl, rfl⟩⟩
  · refine h.single.map fun q hq => ?_
    split
    · rename_i e
      rw [same q hq e]
      exact ⟨rfl, rfl, fun _ => hl⟩
    · exact ⟨rfl, rfl, id⟩
  · refine dead_map h.ended_dead fun q hq => ?_
    split
    · rename_i e
      rw [same q hq e]
      exact ⟨rfl, fun _ => rfl⟩
    · exact ⟨rfl, id⟩
  · have hn := h.not_ended hp hl
    show _ = countedQuantity (modify Position.id s.position.id _ db.positions) ended u sym
    rw [countedQuantity_modify h.valid.positions.keyed hp, signedTrades_append rfl rfl, h.conserved]
    have hsz : c.store s.quantity = s.quantity := stored.1.abs.store
    simp only [Trade.counted, storeTrade, ClosePosition.Loaded.trade, Position.counted,
      storePosition, hl, hn, hsz, s.signed_quantity, hu, hs, hc.userId_eq, hc.symbol_eq]
    by_cases hus : userId = u ∧ symbol = sym
    · simp [hus]
      ring
    · simp [hus]
  · intro p' hp'
    obtain ⟨q, hq, rfl⟩ := mem_modify.mp hp'
    split
    · simp only [storePosition, stored.1.store, stored.2.1.store, stored.2.2.1.store]
      exact h.notional _ hp
    · exact h.notional q hq

theorem Agrees.cancelOrder {ended : List ℕ} (h : Agrees c db ended) {orderId : ℕ} {userId : ℤ}
    {order : Order} (hc : CancelOrder.Committed c db orderId userId order db') :
    Agrees c db' ended := by
  obtain ⟨-, -, -, e⟩ := hc.eq h.valid
  have hv := h.valid.flush hc.flush
  subst e
  refine ⟨hv, h.single, h.ended_dead, h.conserved, h.notional, fun t ht => ?_⟩
  obtain ⟨o, ho, hof⟩ := h.matched t ht
  refine ⟨_, mem_modify.mpr ⟨o, ho, rfl⟩, ?_⟩
  split
  · exact ⟨hof.id, hof.userId, hof.symbol, hof.side, hof.size⟩
  · exact hof

theorem Agrees.syncBalance {ended : List ℕ} (h : Agrees c db ended) {userId : ℤ} {A : Answer → Prop}
    {o : OpenAccount} {balance : ℚ} (hc : SyncBalance.Committed c db userId A o balance db') :
    Agrees c db' ended := by
  have hv := h.valid.flush hc.flush
  have e := hc.eq h.valid
  subst e
  exact ⟨hv, h.single, h.ended_dead, h.conserved, h.notional, h.matched⟩

theorem Agrees.setMarginType {ended : List ℕ} (h : Agrees c db ended) {r : SetMarginType.Request}
    (hc : db.flush c (SetMarginType.writes cfg r
      (db.positions.filter fun p => p.userId = r.userId)) = some db') : Agrees c db' ended := by
  have hv := h.valid.flush hc
  obtain ⟨f, e⟩ := SetMarginType.flush_eq
    (h.valid.positions.keyed.sublist (List.filter_sublist.map _)) hc
  subst e
  refine ⟨hv, h.single.map fun p _ => ⟨rfl, rfl, id⟩, dead_map h.ended_dead fun p _ => ⟨rfl, id⟩,
    fun u sym => ?_, ?_, h.matched⟩
  · show db.signedTrades u sym = (((db.positions.map _).map _).sum : ℚ)
    rw [h.conserved, List.map_map]
    rfl
  · intro p' hp'
    obtain ⟨p, hp, rfl⟩ := List.mem_map.mp hp'
    exact h.notional p hp

/-- The ids of the positions that the liquidation ended. -/
def liquidatedIds (db db' : Db) (symbol : String) : List ℕ :=
  ((db.livePositionsIn symbol).filter fun p => p ∉ db'.livePositionsIn symbol).map Position.id

theorem liquidatedIds_self (symbol : String) : liquidatedIds db db symbol = [] := by
  simp [liquidatedIds]

theorem mem_liquidatedIds (hv : db.Valid c) {symbol : String} {p : Position}
    (hp : p ∈ db.positions) :
    p.id ∈ liquidatedIds db (ApplyLiquidation.liquidated c db symbol) symbol ↔
      p.symbol = symbol ∧ p.liquidated = false := by
  have none_live : ∀ q, q ∉ (ApplyLiquidation.liquidated c db symbol).livePositionsIn symbol := by
    intro q hq
    obtain ⟨hq, hs, hl⟩ := mem_livePositionsIn.mp hq
    obtain ⟨r, hr, rfl⟩ := List.mem_map.mp hq
    split at hl
    · cases hl
    · rename_i hn
      rw [if_neg hn] at hs
      exact hn ⟨hs, hl⟩
  simp only [liquidatedIds, List.mem_map, List.mem_filter, none_live, not_false_eq_true,
    decide_true, and_true, mem_livePositionsIn]
  constructor
  · rintro ⟨q, ⟨hq, hs⟩, e⟩
    rwa [hv.positions.keyed.eq_of_key hq hp e] at hs
  · exact fun hs => ⟨p, ⟨hp, hs⟩, rfl⟩

open ApplyLiquidation in
theorem Agrees.applyLiquidation {ended : List ℕ} (h : Agrees c db ended) {symbol : String}
    {s : Loop} (hc : Committed c db symbol s db') :
    Agrees c db' (ended ++ liquidatedIds db db' symbol) := by
  have hv := h.valid.flush hc.flush
  have e := hc.eq h.valid
  subst e
  have hids : ∀ p ∈ db.positions, p.id ∈ liquidatedIds db (liquidated c db symbol) symbol ↔
      p.symbol = symbol ∧ p.liquidated = false := fun p hp => mem_liquidatedIds h.valid hp
  refine ⟨hv, ?_, ?_, fun u sym => ?_, ?_, h.matched⟩
  · refine h.single.map fun p _ => ?_
    split
    · rename_i hs
      exact ⟨rfl, rfl, fun _ => hs.2⟩
    · exact ⟨rfl, rfl, id⟩
  · intro j hj
    rcases List.mem_append.mp hj with hj | hj
    · refine dead_map h.ended_dead (fun p _ => ?_) j hj
      split
      · exact ⟨rfl, fun _ => rfl⟩
      · exact ⟨rfl, id⟩
    · obtain ⟨p, hp, rfl⟩ := List.mem_map.mp hj
      obtain ⟨hp, hs⟩ := mem_livePositionsIn.mp (List.mem_filter.mp hp).1
      refine ⟨_, List.mem_map_of_mem hp, ?_⟩
      rw [if_pos hs]
      exact ⟨rfl, rfl⟩
  · show db.signedTrades u sym = (((db.positions.map _).map _).sum : ℚ)
    rw [h.conserved, List.map_map, countedQuantity]
    congr 1
    refine List.map_congr_left fun p hp => ?_
    have hid := hids p hp
    by_cases hs : p.symbol = symbol ∧ p.liquidated = false
    · simp [Position.counted, hs, hid.mpr hs]
    · have hn : p.id ∉ liquidatedIds db (liquidated c db symbol) symbol := fun hm => hs (hid.mp hm)
      simp [Position.counted, hs, hn]
  · intro p' hp'
    obtain ⟨p, hp, rfl⟩ := List.mem_map.mp hp'
    split <;> exact h.notional p hp

/-! ## Every run -/

/-- The ids of the positions that liquidations ended, after one more request. -/
def endedAfter (db : Db) (req : Request) (db' : Db) (ended : List ℕ) : List ℕ :=
  match req with
  | .applyLiquidation symbol => ended ++ liquidatedIds db db' symbol
  | _ => ended

/-- The ledger with the ids of the positions that `_apply_liquidation` ended. -/
def ledgerWithEnded (cfg : Config) (c : Column) : Sys :=
  (ledger cfg c).withHistory [] fun w a w' => endedAfter w.db a.1 w'.db

/-- The order's size and limit price are numbers that the columns hold. -/
def RepresentableOrder (c : Column) (req : Request) : Prop :=
  ∀ payload, req = .createOrder payload →
    c.Holds payload.size.value ∧ ∀ p ∈ payload.limitPrice, c.Holds p.value

/-- The exchange reports a price that the columns hold. -/
def PricesHeld (c : Column) (a : Answer) : Prop := ∀ p ∈ a.price, c.Holds p.value

instance (a : Answer) : Decidable (PricesHeld c a) :=
  inferInstanceAs (Decidable (∀ p ∈ a.price, c.Holds p.value))

/-- Sizes and prices that the columns hold. -/
def Representable (c : Column) (a : Request × List Answer) : Prop :=
  RepresentableOrder c a.1 ∧ ∀ x ∈ a.2, PricesHeld c x

theorem OrderCreate.holds_price {o : OrderCreate} {current : PyFloat}
    (hc : c.Holds current.value) (hl : ∀ p ∈ o.limitPrice, c.Holds p.value) :
    c.Holds (o.price current) := by
  unfold OrderCreate.price
  split
  · rename_i p _ hp
    exact hl p hp
  · exact hc

/-- **One request or event.** -/
theorem Agrees.effect {ended : List ℕ} (h : Agrees c db ended) {req : Request}
    (hr : RepresentableOrder c req) (he : Effect cfg c (PricesHeld c) db req db') :
    Agrees c db' (endedAfter db req db' ended) := by
  cases he with
  | same =>
    cases req with
    | applyLiquidation symbol => simpa [endedAfter, liquidatedIds_self] using h
    | _ => exact h
  | createOrder hc =>
    obtain ⟨hsize, hlimit⟩ := hr _ rfl
    refine h.createOrder hc ?_ ?_
    · rw [CreateOrder.Loaded.orderSize, hc.payload_eq]; exact hsize
    · rw [CreateOrder.Checked.price, hc.payload_eq]
      obtain ⟨a, hA, hx⟩ := hc.market
      exact OrderCreate.holds_price (hA _ hx) hlimit
  | closePosition hc _ => exact h.closePosition hc
  | cancelOrder hc => exact h.cancelOrder hc
  | syncBalance hc => exact h.syncBalance hc
  | setMarginType hc => exact h.setMarginType hc
  | applyLiquidation hc => exact h.applyLiquidation hc

theorem Seeded.agrees (h : Seeded c db) : Agrees c db [] where
  valid := h.valid
  single p hp := by rw [h.positions] at hp; cases hp
  ended_dead := by simp
  conserved u sym := by simp [signedTrades, countedQuantity, h.trades, h.positions]
  notional p hp := by rw [h.positions] at hp; cases hp
  matched t ht := by rw [h.trades] at ht; cases ht

theorem ledger_agrees (cfg : Config) (c : Column) :
    ((ledgerWithEnded cfg c).restrict fun _ a => Representable c a).Inductive
      fun s => Agrees c s.1.db s.2 where
  init s := by
    rintro ⟨hs, he⟩
    rw [he]
    exact hs.agrees
  step s a s' h := by
    rintro ⟨⟨hr, hp⟩, ⟨r, hrun⟩, he⟩
    rw [he]
    exact h.effect hr (handle_effect hp hrun)

/-- **Trades and positions agree** in every state that a run with representable sizes and prices
reaches. -/
theorem trades_agree (cfg : Config) {s : World × List ℕ}
    (h : ((ledgerWithEnded cfg (.numeric 8)).restrict fun _ a =>
      Representable (.numeric 8) a).Reach s) :
    (∀ userId symbol, (s.1.db.livePositionsOf userId symbol).length ≤ 1) ∧
    (∀ userId symbol, s.1.db.signedTrades userId symbol =
      s.1.db.liveQuantity userId symbol + s.1.db.endedQuantity s.2 userId symbol) ∧
    (∀ p ∈ s.1.db.positions, p.notional = Column.roundTo 8 (|p.quantity| * p.entryPrice)) ∧
    ∀ t ∈ s.1.db.trades, ∃ o ∈ s.1.db.orders, t.Of o := by
  have hi := (ledger_agrees cfg (.numeric 8)).reach h
  exact ⟨hi.length_le_one, hi.signedTrades, hi.notional, hi.matched⟩

open Sample in
/-- The result for the run with one order and the liquidation of its position. -/
theorem trades_agree_liquidation :
    ∃ s, ((ledgerWithEnded config (.numeric 8)).restrict fun _ a =>
        Representable (.numeric 8) a).Reach s ∧ s.2 = [1] ∧
      s.1.db.signedTrades 1 "BTCUSDT" =
        s.1.db.liveQuantity 1 "BTCUSDT" + s.1.db.endedQuantity s.2 1 "BTCUSDT" := by
  let acts : List (Request × List Answer) :=
    [(.createOrder (order "BTCUSDT" .buy 1 0), accepted (dec 1 2) 1),
     (.applyLiquidation "BTCUSDT", [{}, {}, {}])]
  let f (s : World × List ℕ) (a : Request × List Answer) : Option (World × List ℕ) :=
    (handle config (.numeric 8) a.1 a.2 s.1).map fun x =>
      (x.1, endedAfter s.1.db a.1 x.1.db s.2)
  have hrun : (acts.foldlM f (start 1000, [])).map Prod.snd = some [1] := by decide +kernel
  obtain ⟨s, hs, he⟩ := Option.map_eq_some_iff.mp hrun
  have hr : ∀ a ∈ acts, Representable (.numeric 8) a := by
    intro a ha
    simp only [acts, List.mem_cons, List.not_mem_nil, or_false] at ha
    rcases ha with rfl | rfl
    · refine ⟨?_, by decide +kernel⟩
      rintro payload ⟨⟩
      exact ⟨by decide +kernel, by decide +kernel⟩
    · exact ⟨fun _ e => Request.noConfusion e, by decide +kernel⟩
  have hreach : ((ledgerWithEnded config (.numeric 8)).restrict fun _ a =>
      Representable (.numeric 8) a).Reach s := by
    refine Sys.Reach.foldlM (f := f) (fun s a ha s' h => ?_) (.init ⟨?_, rfl⟩) hs
    · obtain ⟨x, hx, rfl⟩ := Option.map_eq_some_iff.mp h
      exact ⟨hr a ha, ⟨x.2, hx⟩, rfl⟩
    · exact seeded (by norm_num) (by decide +kernel)
  exact ⟨s, hreach, he, (trades_agree config hreach).2.1 1 "BTCUSDT"⟩

end CryptoExchange
