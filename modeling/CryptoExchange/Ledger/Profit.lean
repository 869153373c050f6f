import CryptoExchange.Ledger.Brackets
import CryptoExchange.Ledger.Views
import Mathlib.Data.List.Forall2

/-!
# Unrealized profit

`get_positions_with_pnl` takes a position's profit from its quantity and its entry price, and
`create_order` overwrites the entry price with the price of the last order. In exact arithmetic, the
profit of fills is what one fill of their whole quantity at the last price would have made, less
their `drift` from that price.

* `profitOf`, `drift`: profits of fills, as such.
* `Adds`: accepted orders of one user, in one symbol and on one side, with other requests in
  between.
* `Added`: the trades and the position that they leave. `added_order` and `added_other` are the
  step rules.
* `profit_agrees_iff`: the profit of the view is the profit of the trades exactly when the last
  price is the average of all.
-/

namespace CryptoExchange

open Lib Db

/-! ## The profit of fills -/

/-- Fills as price and signed quantity. -/
abbrev Fill := ℚ × ℚ

def quantityOf (fills : List Fill) : ℚ := (fills.map Prod.snd).sum

/-- The profit of the fills at the price `p`. -/
def profitOf (p : ℚ) (fills : List Fill) : ℚ := (fills.map fun f => (p - f.1) * f.2).sum

/-- How far the fills' prices are from `e` together, by quantity. -/
def drift (e : ℚ) (fills : List Fill) : ℚ := (fills.map fun f => (f.1 - e) * f.2).sum

theorem profitOf_add_drift (p e : ℚ) (fills : List Fill) :
    profitOf p fills + drift e fills = (p - e) * quantityOf fills := by
  rw [profitOf, drift, quantityOf, ← List.sum_map_mul_left, ← List.sum_map_add]
  congr 1
  refine List.map_congr_left fun f _ => ?_
  ring

theorem quantityOf_concat (fills : List Fill) (f : Fill) :
    quantityOf (fills ++ [f]) = quantityOf fills + f.2 := by
  simp [quantityOf]

/-- The price that the fills leave as entry price. -/
def lastPrice (fills : List Fill) : Option ℚ := fills.getLast?.map Prod.fst

theorem lastPrice_concat (fills : List Fill) (f : Fill) : lastPrice (fills ++ [f]) = some f.1 := by
  simp [lastPrice]

/-! ## The rows -/

/-- The profit in exact arithmetic. -/
def Position.profit (p : Position) (price : ℚ) : ℚ := (price - p.entryPrice) * p.quantity

def Trade.fill (t : Trade) : Fill := (t.price, t.side.signed t.size)

/-- The trades of the user in the symbol. -/
def Db.tradesOf (db : Db) (userId : ℤ) (symbol : String) : List Trade :=
  db.trades.filter fun t => t.userId = userId ∧ t.symbol = symbol

/-- Quantity and entry price of a live position of the user in the symbol. -/
def Position.heldAt (userId : ℤ) (symbol : String) (p : Position) : Option (ℚ × ℚ) :=
  if p.userId = userId ∧ p.symbol = symbol ∧ p.liquidated = false then
    some (p.quantity, p.entryPrice)
  else none

def Db.heldAt (db : Db) (userId : ℤ) (symbol : String) : List (ℚ × ℚ) :=
  db.positions.filterMap (Position.heldAt userId symbol)

theorem Db.heldAt_eq (db : Db) (userId : ℤ) (symbol : String) :
    db.heldAt userId symbol =
      (db.livePositionsOf userId symbol).map fun p => (p.quantity, p.entryPrice) := by
  unfold Db.heldAt Db.livePositionsOf
  rw [← List.filterMap_eq_map, List.filterMap_filter]
  refine List.filterMap_congr fun p _ => ?_
  simp [Position.heldAt]

/-- Updates that keep what the user holds. -/
theorem heldAt_map {ps : List Position} {userId : ℤ} {symbol : String} {g : Position → Position}
    (hg : ∀ p ∈ ps, (g p).heldAt userId symbol = p.heldAt userId symbol) :
    (ps.map g).filterMap (Position.heldAt userId symbol) =
      ps.filterMap (Position.heldAt userId symbol) := by
  rw [List.filterMap_map]
  exact List.filterMap_congr hg

theorem heldAt_of_ne {p : Position} {userId : ℤ} {symbol : String}
    (h : p.userId ≠ userId ∨ p.symbol ≠ symbol ∨ p.liquidated = true) :
    p.heldAt userId symbol = none := by
  refine if_neg ?_
  rintro ⟨hu, hs, hl⟩
  rcases h with h | h | h
  · exact h hu
  · exact h hs
  · rw [hl] at h
    cases h

/-- An update of a position elsewhere. -/
theorem heldAt_modify {ps : List Position} (hk : Keyed Position.id ps) {q : Position} (hq : q ∈ ps)
    {f : Position → Position} {userId : ℤ} {symbol : String}
    (hold : q.heldAt userId symbol = none) (hnew : (f q).heldAt userId symbol = none) :
    (Lib.modify Position.id q.id f ps).filterMap (Position.heldAt userId symbol) =
      ps.filterMap (Position.heldAt userId symbol) := by
  refine heldAt_map fun p hp => ?_
  split
  · rename_i hid
    rw [hk.eq_of_key hp hq hid, hold, hnew]
  · rfl

variable {cfg : Config} {db db' : Db} {userId : ℤ} {symbol : String}

theorem tradesOf_append {t : Trade} (h : db'.trades = db.trades ++ [t]) (hu : t.userId = userId)
    (hs : t.symbol = symbol) :
    db'.tradesOf userId symbol = db.tradesOf userId symbol ++ [t] := by
  rw [Db.tradesOf, h, List.filter_append, List.filter_cons_of_pos (by simp [hu, hs])]
  rfl

theorem tradesOf_append_of_ne {t : Trade} (h : db'.trades = db.trades ++ [t])
    (hne : t.userId ≠ userId ∨ t.symbol ≠ symbol) :
    db'.tradesOf userId symbol = db.tradesOf userId symbol := by
  rw [Db.tradesOf, h, List.filter_append, List.filter_cons_of_neg (by simpa using not_and_or.mpr hne)]
  exact List.append_nil _

/-! ## Other requests -/

/-- The request is not about the user's position in the symbol. -/
def Request.Elsewhere (cfg : Config) (userId : ℤ) (symbol : String) : Request → Prop
  | .createOrder payload => payload.userId ≠ userId ∨ payload.symbol ≠ symbol
  | .closePosition u s => u ≠ userId ∨ cfg.upper s ≠ symbol
  | .applyLiquidation s => s ≠ symbol
  | _ => True

theorem ClosePosition.Committed.elsewhere {c : Column} (hv : db.Valid c) {u : ℤ} {x : String}
    {s : ClosePosition.Loaded} {closePrice : PyFloat} {account : Option Account} {o t : ℕ}
    (hc : ClosePosition.Committed c db u x s closePrice account o t db')
    (hne : u ≠ userId ∨ x ≠ symbol) :
    db'.heldAt userId symbol = db.heldAt userId symbol ∧
      db'.tradesOf userId symbol = db.tradesOf userId symbol := by
  obtain ⟨hp, hu, hs, -⟩ := hc.mem
  rw [hc.eq hv]
  constructor
  · refine heldAt_modify hv.positions.keyed hp (heldAt_of_ne ?_)
      (heldAt_of_ne (.inr (.inr rfl)))
    exact hne.imp (hu ▸ ·) fun hn => .inl (hs ▸ hn)
  · exact tradesOf_append_of_ne rfl
      (hne.imp (fun hn e => hn (hc.userId_eq.symm.trans e))
        fun hn e => hn (hc.symbol_eq.symm.trans e))

theorem CreateOrder.Committed.elsewhere {c : Column} (hv : db.Valid c) {payload : OrderCreate}
    {A : Answer → Prop} {s : CreateOrder.Placed cfg} {position : Option Position} {i t : ℕ}
    (hc : CreateOrder.Committed c db payload A s position i t db')
    (h : payload.userId ≠ userId ∨ payload.symbol ≠ symbol) :
    db'.heldAt userId symbol = db.heldAt userId symbol ∧
      db'.tradesOf userId symbol = db.tradesOf userId symbol := by
  have e : s.payload = payload := hc.payload_eq
  have hne : s.payload.userId ≠ userId ∨ s.payload.symbol ≠ symbol := by rw [e]; exact h
  rw [hc.eq hv]
  refine ⟨?_, tradesOf_append_of_ne rfl hne⟩
  show (s.positions c position i db.positions).filterMap _ = _
  cases position with
  | none =>
    rw [CreateOrder.Placed.positions, List.filterMap_append, List.filterMap_cons_none
      (heldAt_of_ne (hne.imp id .inl))]
    simp [Db.heldAt]
  | some q =>
    obtain ⟨hq, hu, hs, -⟩ := hc.mem
    have hother : q.userId ≠ userId ∨ q.symbol ≠ symbol ∨ q.liquidated = true :=
      hne.imp (hu ▸ ·) fun hn => .inl (hs ▸ hn)
    exact heldAt_modify hv.positions.keyed hq (heldAt_of_ne hother) (heldAt_of_ne hother)

/-- **Other requests** leave what the user holds in the symbol, and the user's trades in it. -/
theorem Effect.elsewhere {c : Column} {A : Answer → Prop} {req : Request} (hv : db.Valid c)
    (he : Effect cfg c A db req db') (h : req.Elsewhere cfg userId symbol) :
    db'.heldAt userId symbol = db.heldAt userId symbol ∧
      db'.tradesOf userId symbol = db.tradesOf userId symbol := by
  cases he with
  | same => exact ⟨rfl, rfl⟩
  | cancelOrder hc =>
    obtain ⟨-, -, -, e⟩ := hc.eq hv
    rw [e]
    exact ⟨rfl, rfl⟩
  | syncBalance hc =>
    rw [hc.eq hv]
    exact ⟨rfl, rfl⟩
  | setMarginType hc =>
    obtain ⟨f, e⟩ := SetMarginType.flush_eq
      (hv.positions.keyed.sublist (List.filter_sublist.map _)) hc
    rw [e]
    exact ⟨heldAt_map fun _ _ => rfl, rfl⟩
  | applyLiquidation hc =>
    rw [hc.eq hv]
    refine ⟨heldAt_map fun p _ => ?_, rfl⟩
    split
    · rename_i hs
      have hne : p.symbol ≠ symbol := fun e => h (hs.1.symm.trans e)
      exact (heldAt_of_ne (.inr (.inr rfl))).trans (heldAt_of_ne (.inr (.inl hne))).symm
    · rfl
  | closePosition hc _ => exact hc.elsewhere hv h
  | createOrder hc => exact hc.elsewhere hv h

/-! ## The orders -/

section

variable {side : Side} {c : Column}

/-- Orders of the user in the symbol and on the side, each accepted, and other requests between
them. -/
inductive Adds (cfg : Config) (c : Column) (userId : ℤ) (symbol : String) (side : Side)
    (w : World) : List (OrderCreate × List Answer) → World → Prop
  | start : Adds cfg c userId symbol side w [] w
  | order {orders : List (OrderCreate × List Answer)} {w₁ w₂ : World} {payload : OrderCreate}
      {as : List Answer} {r : CreateOrder.Reply} :
      Adds cfg c userId symbol side w orders w₁ → payload.userId = userId →
      payload.symbol = symbol → payload.side = side →
      placeOrder cfg c payload as w₁ = some (w₂, r) →
      Adds cfg c userId symbol side w (orders ++ [(payload, as)]) w₂
  | other {orders : List (OrderCreate × List Answer)} {w₁ w₂ : World} {req : Request}
      {as : List Answer} {r : Except Failure Reply} :
      Adds cfg c userId symbol side w orders w₁ → req.Elsewhere cfg userId symbol →
      handle cfg c req as w₁ = some (w₂, r) → Adds cfg c userId symbol side w orders w₂

/-- The fill of an order, at the price that it was answered. -/
def FillOf (side : Side) (o : OrderCreate × List Answer) (f : Fill) : Prop :=
  f.2 = side.signed o.1.size.value ∧ ∃ x ∈ prices o.2, f.1 = o.1.price x

/-- What the orders leave: their trades, and a position of their whole quantity at the last price. -/
structure Added (db : Db) (userId : ℤ) (symbol : String) (side : Side)
    (orders : List (OrderCreate × List Answer)) (fills : List Fill) (db' : Db) : Prop where
  valid : db'.Valid .exact
  asked : List.Forall₂ (FillOf side) orders fills
  trades : ∃ new, db'.tradesOf userId symbol = db.tradesOf userId symbol ++ new ∧
    new.map Trade.fill = fills
  held : db'.heldAt userId symbol = (lastPrice fills).toList.map fun e => (quantityOf fills, e)

/-- One more order. -/
theorem added_order {orders : List (OrderCreate × List Answer)} {fills : List Fill}
    {w₁ w₂ : World} {payload : OrderCreate} {as : List Answer} {r : CreateOrder.Reply}
    (h : Added db userId symbol side orders fills w₁.db) (hu : payload.userId = userId)
    (hs : payload.symbol = symbol) (hside : payload.side = side)
    (hp : placeOrder cfg .exact payload as w₁ = some (w₂, r)) :
    ∃ f, Added db userId symbol side (orders ++ [(payload, as)]) (fills ++ [f]) w₂.db := by
  obtain ⟨s, position, i, t, -, hc, -, -⟩ := handle_createOrder (placeOrder_eq hp)
  subst hu hs hside
  have e : s.payload = payload := hc.payload_eq
  have hsigned : s.signedQty = payload.side.signed payload.size.value := by
    rw [← e]
    rfl
  refine ⟨(s.price, s.signedQty), h.valid.flush hc.flush, ?_, ?_, ?_⟩
  · refine List.rel_append h.asked (.cons ⟨hsigned, s.current, mem_prices hc.market, ?_⟩ .nil)
    rw [← e]
    rfl
  · obtain ⟨new, hnew, hfills⟩ := h.trades
    refine ⟨new ++ [s.trade t], ?_, ?_⟩
    · have htrades : w₂.db.trades = w₁.db.trades ++ [s.trade t] := by rw [hc.eq h.valid]; rfl
      rw [tradesOf_append htrades (congrArg OrderCreate.userId e) (congrArg OrderCreate.symbol e),
        hnew, List.append_assoc]
    · rw [List.map_append, hfills]
      rfl
  · have hold := h.held
    rw [Db.heldAt_eq, hc.position_eq] at hold
    rw [Db.heldAt_eq, hc.livePosition h.valid, lastPrice_concat, quantityOf_concat]
    cases position with
    | none =>
      have hnil : fills = [] := by
        rcases List.eq_nil_or_concat fills with hnil | ⟨fs, f, rfl⟩
        · exact hnil
        · rw [List.concat_eq_append, lastPrice_concat] at hold
          cases hold
      rw [hnil]
      simp [quantityOf, storePosition, CreateOrder.Placed.position]
    | some p =>
      have hq : p.quantity = quantityOf fills := by
        cases hl : lastPrice fills with
        | none => rw [hl] at hold; cases hold
        | some x =>
          rw [hl] at hold
          exact congrArg Prod.fst (List.singleton_inj.mp hold)
      rw [← hq]
      rfl

/-- A request about something else. -/
theorem added_other {orders : List (OrderCreate × List Answer)} {fills : List Fill}
    {w₁ w₂ : World} {req : Request} {as : List Answer} {r : Except Failure Reply}
    (h : Added db userId symbol side orders fills w₁.db) (hreq : req.Elsewhere cfg userId symbol)
    (hr : handle cfg .exact req as w₁ = some (w₂, r)) :
    Added db userId symbol side orders fills w₂.db := by
  have he := handle_effect (fun _ ha => ha) hr
  obtain ⟨hheld, htrades⟩ := he.elsewhere h.valid hreq
  exact ⟨he.valid h.valid, h.asked, htrades ▸ h.trades, hheld.trans h.held⟩

/-- All of them. -/
theorem Adds.added {orders : List (OrderCreate × List Answer)} {w w' : World}
    (hv : w.db.Valid .exact) (hnone : w.db.livePositionsOf userId symbol = [])
    (h : Adds cfg .exact userId symbol side w orders w') :
    ∃ fills, Added w.db userId symbol side orders fills w'.db := by
  induction h with
  | start =>
    refine ⟨[], hv, .nil, ⟨[], (List.append_nil _).symm, rfl⟩, ?_⟩
    rw [Db.heldAt_eq, hnone]
    rfl
  | order _ hu hs hside hp ih =>
    obtain ⟨fills, hfills⟩ := ih
    obtain ⟨f, hf⟩ := added_order hfills hu hs hside hp
    exact ⟨fills ++ [f], hf⟩
  | other _ hreq hr ih =>
    obtain ⟨fills, hfills⟩ := ih
    exact ⟨fills, added_other hfills hreq hr⟩

end

/-- **Profit and trades.** After orders of one side, in one symbol and from no position, the view
takes the profit from a price, and it is the profit of the orders' trades, at whichever market price,
exactly when the fills' prices average to the last one. -/
theorem profit_agrees_iff {side : Side} {orders : List (OrderCreate × List Answer)} {w w' : World}
    (hv : w.db.Valid .exact) (hnone : w.db.livePositionsOf userId symbol = []) (hne : orders ≠ [])
    (h : Adds cfg .exact userId symbol side w orders w') :
    ∃ p new fills last, w'.db.livePositionsOf userId symbol = [p] ∧
      w'.db.tradesOf userId symbol = w.db.tradesOf userId symbol ++ new ∧
      List.Forall₂ (FillOf side) orders fills ∧ lastPrice fills = some last ∧
      ∀ price : PyFloat, p.pnl cfg (some price) = cfg.float (p.profit price.value) ∧
        (p.profit price.value = profitOf price.value (new.map Trade.fill) ↔
          drift last fills = 0) := by
  obtain ⟨fills, -, hfills, ⟨new, htrades, hnew⟩, hheld⟩ := h.added hv hnone
  obtain ⟨fs, f, rfl⟩ : ∃ fs f, fills = fs ++ [f] := by
    rcases List.eq_nil_or_concat fills with rfl | ⟨fs, f, e⟩
    · exact absurd (List.forall₂_nil_right_iff.mp hfills) hne
    · exact ⟨fs, f, e.trans (List.concat_eq_append ..)⟩
  rw [Db.heldAt_eq, lastPrice_concat] at hheld
  obtain ⟨p, hlive, hp⟩ := List.map_eq_singleton_iff.mp hheld
  obtain ⟨hquantity, hentry⟩ := Prod.mk.inj hp
  refine ⟨p, new, _, f.1, hlive, htrades, hfills, lastPrice_concat fs f, fun price => ⟨rfl, ?_⟩⟩
  rw [hnew, Position.profit, hquantity, hentry, ← profitOf_add_drift]
  exact add_eq_left

/-! ## Two buys -/

namespace Sample

/-- 1 BTC at 100, and 1 more at 200. -/
def dearer : List (OrderCreate × List Answer) :=
  [(order "BTCUSDT" .buy 1 0, accepted (dec 1 2) 1), (order "BTCUSDT" .buy 1 0, accepted (dec 2 2) 2)]

/-- Both are accepted. At 200 the view's profit is 0, and the trades' is 100. -/
theorem dearer_run :
    ∃ w', Adds config .exact 1 "BTCUSDT" .buy (start 1000) dearer w' ∧
      (w'.db.livePositionsOf 1 "BTCUSDT").map (fun p => (p.profit 200, p.pnl config (some (dec 2 2)))) =
        [(0, config.float 0)] ∧
      profitOf 200 ((w'.db.tradesOf 1 "BTCUSDT").map Trade.fill) = 100 := by
  have hrun : (placeOrder config .exact (order "BTCUSDT" .buy 1 0) (accepted (dec 1 2) 1)
      (start 1000)).bind (fun x =>
        (placeOrder config .exact (order "BTCUSDT" .buy 1 0) (accepted (dec 2 2) 2) x.1).map
          fun y => ((y.1.db.livePositionsOf 1 "BTCUSDT").map
              fun p => (p.profit 200, p.pnl config (some (dec 2 2))),
            profitOf 200 ((y.1.db.tradesOf 1 "BTCUSDT").map Trade.fill))) =
      some ([(0, config.float 0)], 100) := by decide +kernel
  obtain ⟨⟨w₁, r₁⟩, hfirst, h⟩ := Option.bind_eq_some_iff.mp hrun
  obtain ⟨⟨w₂, r₂⟩, hsecond, h⟩ := Option.map_eq_some_iff.mp h
  obtain ⟨hview, htrades⟩ := Prod.mk.inj h
  exact ⟨w₂, .order (.order .start rfl rfl rfl hfirst) rfl rfl rfl hsecond, hview, htrades⟩

end Sample

open Sample in
/-- The result for the two buys. -/
theorem profit_agrees_iff_dearer :
    ∃ (w' : World) (p : Position) (fills : List Fill) (last : ℚ),
      w'.db.livePositionsOf 1 "BTCUSDT" = [p] ∧
      List.Forall₂ (FillOf .buy) dearer fills ∧ lastPrice fills = some last ∧
      (p.profit 200 = profitOf 200 ((w'.db.tradesOf 1 "BTCUSDT").map Trade.fill) ↔
        drift last fills = 0) := by
  obtain ⟨w', h, -⟩ := dearer_run
  obtain ⟨p, new, fills, last, hlive, htrades, hfills, hlast, hiff⟩ := profit_agrees_iff
    (seeded (by norm_num) (by decide +kernel)).valid rfl (by simp [dearer]) h
  have h200 : (dec 2 2).value = 200 := by decide +kernel
  have hnew : w'.db.tradesOf 1 "BTCUSDT" = new := htrades
  refine ⟨w', p, fills, last, hlive, hfills, hlast, ?_⟩
  rw [hnew, ← h200]
  exact (hiff (dec 2 2)).2

open Sample in
/-- 1 BTC at 100 and 1 at 200 make 100 at a price of 200, and the view says 0. -/
theorem profit_disagrees :
    ∃ w' p, Adds config .exact 1 "BTCUSDT" .buy (start 1000) dearer w' ∧
      w'.db.livePositionsOf 1 "BTCUSDT" = [p] ∧
      p.pnl config (some (dec 2 2)) = config.float 0 ∧ p.profit 200 = 0 ∧
      profitOf 200 ((w'.db.tradesOf 1 "BTCUSDT").map Trade.fill) = 100 := by
  obtain ⟨w', h, hview, htrades⟩ := dearer_run
  obtain ⟨p, hlive, hp⟩ := List.map_eq_singleton_iff.mp hview
  obtain ⟨hprofit, hpnl⟩ := Prod.mk.inj hp
  exact ⟨w', p, h, hlive, hpnl, hprofit, htrades⟩

end CryptoExchange
