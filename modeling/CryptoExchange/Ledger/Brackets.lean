import CryptoExchange.Ledger.Cancel
import CryptoExchange.Ledger.Trades
import Mathlib.Algebra.BigOperators.Ring.List
import Mathlib.Data.List.Induction

/-!
# Leverage brackets and positions

`get_max_leverage` steps down with "the given position notional", and `evaluate_order` gives it the
notional of the order alone. So each of several small orders is approved at the ceiling of its own
bracket, and their margins add up to less than one order of the same total would reserve.

* `placeOrders`: orders handled one after the other, all of them accepted.
* `Alike`: same user, symbol and side, at one price and one volatility.
* `Built`: the live position that such orders build. `built_order` is what one more does to it.
* `position_capped_iff`: the position keeps to its ceiling exactly when the orders' margins cover
  what the total asks for (`CoversTotal`). `position_over_ceiling` is a position that does not.
* `coversTotal_iff_ceilings`: orders that ask for no leverage of their own cover their total when
  each is in a bracket with its ceiling.
-/

namespace CryptoExchange

open Lib Db

variable {cfg : Config} {c : Column} {db db' : Db}

/-- Orders handled alone, one after the other, all accepted. -/
def placeOrders (cfg : Config) (c : Column) (orders : List (OrderCreate × List Answer)) (w : World) :
    Option World :=
  orders.foldlM (fun w o => (placeOrder cfg c o.1 o.2 w).map Prod.fst) w

/-- An order of the user in the symbol, at this price and volatility. -/
structure Alike (userId : ℤ) (symbol : String) (side : Side) (vol : Volatility) (price : ℚ)
    (o : OrderCreate × List Answer) : Prop where
  userId_eq : o.1.userId = userId
  symbol_eq : o.1.symbol = symbol
  side_eq : o.1.side = side
  vol_eq : ∀ a ∈ o.2, a.vol = vol
  price_eq : ∀ x ∈ prices o.2, o.1.price x = price

/-- The position's margin covers its notional at the ceiling for that notional. -/
def Position.Capped (cfg : Config) (vol : Volatility) (user : User) (p : Position) : Prop :=
  p.notional ≤ p.margin * getMaxLeverage cfg vol (riskTier cfg user) p.notional p.symbol

instance (vol : Volatility) (user : User) (p : Position) : Decidable (p.Capped cfg vol user) :=
  inferInstanceAs (Decidable (_ ≤ _))

/-! ## What the orders ask for -/

/-- The quantity that the column holds after the orders. -/
def heldSize (c : Column) (os : List OrderCreate) : ℚ :=
  (os.map fun o => c.store o.size.value).sum

/-- The margin that the column holds after the orders: each at the ceiling of its own notional. -/
def heldMargin (cfg : Config) (c : Column) (vol : Volatility) (user : User) (price : ℚ)
    (os : List OrderCreate) : ℚ :=
  (os.map fun o => c.store (o.margin cfg vol user price)).sum

/-- The notional of the orders together. The last size is added before the column rounds it. -/
def totalNotional (c : Column) (price : ℚ) (os : List OrderCreate) : ℚ :=
  c.store ((heldSize c os.dropLast + (os.getLast?.map fun o => o.size.value).getD 0) * price)

/-- The orders' margins add up to what one order of their total would reserve at least. -/
def CoversTotal (cfg : Config) (c : Column) (vol : Volatility) (user : User) (symbol : String)
    (price : ℚ) (os : List OrderCreate) : Prop :=
  totalNotional c price os /
      getMaxLeverage cfg vol (riskTier cfg user) (totalNotional c price os) symbol ≤
    heldMargin cfg c vol user price os

theorem heldSize_nonneg (os : List OrderCreate) : 0 ≤ heldSize c os :=
  sum_nonneg_of fun o _ => c.store_nonneg o.size_pos.le

theorem holds_heldSize (os : List OrderCreate) : c.Holds (heldSize c os) :=
  Column.holds_sum fun x hx => by
    obtain ⟨o, -, rfl⟩ := List.mem_map.mp hx
    exact c.idem _

theorem heldSize_concat (os : List OrderCreate) (o : OrderCreate) :
    heldSize c (os ++ [o]) = heldSize c os + c.store o.size.value := by
  simp [heldSize]

theorem holds_heldMargin {vol : Volatility} {user : User} {price : ℚ} (os : List OrderCreate) :
    c.Holds (heldMargin cfg c vol user price os) :=
  Column.holds_sum fun x hx => by
    obtain ⟨o, -, rfl⟩ := List.mem_map.mp hx
    exact c.idem _

theorem heldMargin_concat {vol : Volatility} {user : User} {price : ℚ} (os : List OrderCreate)
    (o : OrderCreate) : heldMargin cfg c vol user price (os ++ [o]) =
      heldMargin cfg c vol user price os + c.store (o.margin cfg vol user price) := by
  simp [heldMargin]

theorem totalNotional_concat {price : ℚ} (os : List OrderCreate) (o : OrderCreate) :
    totalNotional c price (os ++ [o]) = c.store ((heldSize c os + o.size.value) * price) := by
  simp [totalNotional]

theorem orderLeverage_pos (o : OrderCreate) {maxLeverage : ℤ} (h : 1 ≤ maxLeverage) :
    1 ≤ orderLeverage o.leverage maxLeverage := by
  unfold orderLeverage
  refine le_min ?_ h
  split
  · exact h
  · rename_i hne
    cases hl : o.leverage with
    | none => rw [hl] at hne; exact absurd rfl hne
    | some l => exact o.leverage_ge l hl

/-- Margins have the sign of the price. -/
theorem margins_sign (vol : Volatility) (user : User) (price : ℚ) (os : List OrderCreate)
    (o : OrderCreate) :
    0 ≤ heldMargin cfg c vol user price os ∧ 0 ≤ o.margin cfg vol user price ∨
      heldMargin cfg c vol user price os ≤ 0 ∧ o.margin cfg vol user price ≤ 0 := by
  have hl : ∀ o : OrderCreate, (0 : ℚ) ≤ orderLeverage o.leverage
      (getMaxLeverage cfg vol (riskTier cfg user) (o.size.value * price) o.symbol) := by
    intro o
    have := orderLeverage_pos o (getMaxLeverage_pos cfg vol (riskTier cfg user)
      (o.size.value * price) o.symbol)
    exact_mod_cast (by omega : (0 : ℤ) ≤ _)
  rcases le_total 0 price with hp | hp
  · have pos : ∀ o : OrderCreate, 0 ≤ o.margin cfg vol user price := fun o =>
      div_nonneg (mul_nonneg o.size_pos.le hp) (hl o)
    exact .inl ⟨sum_nonneg_of fun o _ => c.store_nonneg (pos o), pos o⟩
  · have neg : ∀ o : OrderCreate, o.margin cfg vol user price ≤ 0 := fun o =>
      div_nonpos_of_nonpos_of_nonneg (mul_nonpos_of_nonneg_of_nonpos o.size_pos.le hp) (hl o)
    exact .inr ⟨sum_nonpos_of fun o _ => Column.store_nonpos (neg o), neg o⟩

/-! ## Orders at their own ceilings -/

/-- Summands that are each at most another one have the same sum only if they are the same. -/
theorem sum_le_sum_iff {α : Type} {f g : α → ℚ} {l : List α} (h : ∀ x ∈ l, f x ≤ g x) :
    (l.map g).sum ≤ (l.map f).sum ↔ ∀ x ∈ l, f x = g x := by
  induction l with
  | nil => simp
  | cons x l ih =>
    have hx := h x List.mem_cons_self
    have hl : ∀ y ∈ l, f y ≤ g y := fun y hy => h y (List.mem_cons_of_mem _ hy)
    have hsum := List.sum_le_sum hl
    rw [List.forall_mem_cons, List.map_cons, List.map_cons, List.sum_cons, List.sum_cons, ← ih hl]
    constructor
    · intro hle
      exact ⟨by linarith, by linarith⟩
    · rintro ⟨heq, hle⟩
      linarith

/-- Without rounding the total is the sum of the orders' notionals. -/
theorem totalNotional_exact (price : ℚ) (os : List OrderCreate) :
    totalNotional .exact price os = (os.map fun o => o.size.value * price).sum := by
  rcases List.eq_nil_or_concat os with rfl | ⟨init, o, rfl⟩
  · simp [totalNotional, heldSize]
  · rw [List.concat_eq_append, totalNotional_concat]
    simp [heldSize, List.sum_map_mul_right, add_mul]

/-- Without rounding, orders that ask for no leverage of their own cover their total exactly when
each has the ceiling of the total. -/
theorem coversTotal_iff_ceilings {vol : Volatility} {user : User} {symbol : String} {price : ℚ}
    {os : List OrderCreate} (hp : 0 < price)
    (ho : ∀ o ∈ os, o.symbol = symbol ∧ o.leverage = none) :
    CoversTotal cfg .exact vol user symbol price os ↔ ∀ o ∈ os,
      getMaxLeverage cfg vol (riskTier cfg user) (o.size.value * price) symbol =
        getMaxLeverage cfg vol (riskTier cfg user) (totalNotional .exact price os) symbol := by
  let ceiling (n : ℚ) : ℤ := getMaxLeverage cfg vol (riskTier cfg user) n symbol
  have hpos : ∀ n, (0 : ℚ) < ceiling n := fun n => by
    exact_mod_cast getMaxLeverage_pos cfg vol (riskTier cfg user) n symbol
  have hn : ∀ o : OrderCreate, 0 < o.size.value * price := fun o => mul_pos o.size_pos hp
  have hle : ∀ o ∈ os, o.size.value * price ≤ totalNotional .exact price os := by
    intro o hm
    rw [totalNotional_exact]
    exact List.single_le_sum (List.forall_mem_map.mpr fun o _ => (hn o).le) _ (List.mem_map_of_mem hm)
  have hmargin : ∀ o ∈ os, o.margin cfg vol user price =
      o.size.value * price / ceiling (o.size.value * price) := by
    intro o hm
    obtain ⟨hs, hl⟩ := ho o hm
    simp [OrderCreate.margin, orderLeverage, hs, hl, ceiling]
  have hheld : heldMargin cfg .exact vol user price os =
      (os.map fun o => o.size.value * price / ceiling (o.size.value * price)).sum := by
    exact congrArg List.sum (List.map_congr_left hmargin)
  have hwhole (n : ℚ) : totalNotional .exact price os / n =
      (os.map fun o => o.size.value * price / n).sum := by
    simp only [div_eq_mul_inv]
    rw [List.sum_map_mul_right, ← totalNotional_exact]
  have hterm : ∀ o ∈ os, o.size.value * price / ceiling (o.size.value * price) ≤
      o.size.value * price / ceiling (totalNotional .exact price os) := fun o hm => by
    have := getMaxLeverage_anti cfg vol (riskTier cfg user) (hle o hm) symbol
    exact div_le_div_of_nonneg_left (hn o).le (hpos _) (by exact_mod_cast this)
  rw [CoversTotal, hheld, hwhole, sum_le_sum_iff hterm]
  refine forall₂_congr fun o _ => ?_
  rw [div_eq_div_iff (hpos _).ne' (hpos _).ne', mul_right_inj' (hn o).ne', Int.cast_inj]
  exact eq_comm

/-! ## The position -/

/-- The live position that the commit leaves. -/
theorem CreateOrder.Committed.livePosition (hv : db.Valid c) {payload : OrderCreate}
    {A : Answer → Prop} {s : CreateOrder.Placed cfg} {position : Option Position} {i t : ℕ}
    (h : CreateOrder.Committed c db payload A s position i t db') :
    db'.livePositionsOf payload.userId payload.symbol =
      [storePosition c ((position.map s.added).getD (s.position i))] := by
  have e : s.payload = payload := h.payload_eq
  rw [h.eq hv]
  show (s.positions c position i db.positions).filter _ = _
  cases position with
  | none =>
    have hold : db.positions.filter (fun p => p.userId = payload.userId ∧
        p.symbol = payload.symbol ∧ p.liquidated = false) = [] := h.position_eq
    rw [CreateOrder.Placed.positions, List.filter_append, hold, List.nil_append,
      List.filter_cons_of_pos]
    · rfl
    · simp [storePosition, CreateOrder.Placed.position, e]
  | some p =>
    obtain ⟨hp, -, -, -⟩ := h.mem
    have hold : db.positions.filter (fun p => p.userId = payload.userId ∧
        p.symbol = payload.symbol ∧ p.liquidated = false) = [p] := h.position_eq
    rw [CreateOrder.Placed.positions, hv.positions.keyed.filter_modify hp, hold]
    · simp [Lib.modify]
    · rfl

/-- What the order has changed in it. -/
theorem CreateOrder.Committed.live (hv : db.Valid c) {payload : OrderCreate} {A : Answer → Prop}
    {s : CreateOrder.Placed cfg} {position : Option Position} {i t : ℕ}
    (h : CreateOrder.Committed c db payload A s position i t db') :
    ∃ p, db'.livePositionsOf payload.userId payload.symbol = [p] ∧
      p.quantity = c.store ((position.map Position.quantity).getD 0 + s.signedQty) ∧
      p.notional =
        c.store (|(position.map Position.quantity).getD 0 + s.signedQty| * s.price) ∧
      p.margin =
        c.store ((position.map Position.margin).getD 0 + s.approval.requiredMargin) := by
  refine ⟨_, h.livePosition hv, ?_⟩
  cases position with
  | none => simp [storePosition, CreateOrder.Placed.position]
  | some p => exact ⟨rfl, rfl, rfl⟩

/-- What orders have built from nothing. -/
structure Built (cfg : Config) (c : Column) (userId : ℤ) (symbol : String) (side : Side)
    (vol : Volatility) (user : User) (price : ℚ) (os : List OrderCreate) (db : Db) : Prop where
  valid : db.Valid c
  user_eq : db.selectUser userId = [user]
  position : ∃ position : Option Position,
    db.livePositionsOf userId symbol = position.toList ∧
    (position.map Position.quantity).getD 0 = side.signed (heldSize c os) ∧
    (position.map Position.margin).getD 0 = heldMargin cfg c vol user price os ∧
    (os ≠ [] → ∃ p, position = some p ∧ p.notional = totalNotional c price os)

theorem Side.signed_zero (side : Side) : side.signed 0 = 0 := by
  cases side
  · rfl
  · exact neg_zero

theorem Side.signed_add (side : Side) (x y : ℚ) :
    side.signed x + side.signed y = side.signed (x + y) := by
  cases side
  · rfl
  · exact (neg_add x y).symm

theorem Side.abs_signed (side : Side) {x : ℚ} (hx : 0 ≤ x) : |side.signed x| = x := by
  cases side
  · exact abs_of_nonneg hx
  · exact (abs_neg x).trans (abs_of_nonneg hx)

theorem Side.store_signed (c : Column) (side : Side) (x : ℚ) :
    c.store (side.signed x) = side.signed (c.store x) := by
  cases side
  · rfl
  · exact c.neg x

section

variable {userId : ℤ} {symbol : String} {side : Side} {vol : Volatility} {user : User} {price : ℚ}

theorem built_nil (hv : db.Valid c) (huser : db.selectUser userId = [user])
    (hnone : db.livePositionsOf userId symbol = []) :
    Built cfg c userId symbol side vol user price [] db where
  valid := hv
  user_eq := huser
  position := ⟨none, hnone, side.signed_zero.symm, rfl, fun h => absurd rfl h⟩

/-- One more order. -/
theorem built_order {os : List OrderCreate} {o : OrderCreate} {as : List Answer} {w w' : World}
    {r : CreateOrder.Reply} (hb : Built cfg c userId symbol side vol user price os w.db)
    (ha : Alike userId symbol side vol price (o, as))
    (h : placeOrder cfg c o as w = some (w', r)) :
    Built cfg c userId symbol side vol user price (os ++ [o]) w'.db := by
  obtain ⟨s, position, i, t, -, hc, -, -⟩ := handle_createOrder (placeOrder_eq h)
  obtain ⟨old, hold, hquantity, hmargin, -⟩ := hb.position
  obtain ⟨p, hlive, hq, hn, hm⟩ := hc.live hb.valid
  obtain rfl : o.userId = userId := ha.userId_eq
  obtain rfl : o.symbol = symbol := ha.symbol_eq
  -- what the call read is what the earlier orders left
  obtain rfl : position = old := by
    have := hc.position_eq.symm.trans hold
    cases position <;> cases old <;> simp_all
  have hsigned : s.signedQty = side.signed o.size.value := by
    rw [← ha.side_eq, ← hc.payload_eq]
    rfl
  have hprice : s.price = price := by
    rw [CreateOrder.Checked.price, hc.payload_eq]
    exact ha.price_eq _ (mem_prices hc.market)
  have hrequired : s.approval.requiredMargin = o.margin cfg vol user price := by
    obtain ⟨a, hmem, hvol⟩ := hc.volatility
    have huser : s.user = user := by
      have := hc.user.symm.trans hb.user_eq
      exact List.singleton_inj.mp this
    rw [hc.requiredMargin_eq, hprice, hvol, ha.vol_eq a hmem, huser]
  have h0 := heldSize_nonneg (c := c) os
  have hsize := o.size_pos.le
  rw [hquantity, hsigned, side.signed_add] at hq hn
  rw [hmargin, hrequired] at hm
  refine ⟨hb.valid.flush hc.flush, ?_, some p, hlive, ?_, ?_, fun _ => ⟨p, rfl, ?_⟩⟩
  · rw [hc.eq hb.valid]
    exact hb.user_eq
  · rw [heldSize_concat, ← c.store_add _ _ (holds_heldSize os) h0 hsize]
    exact hq.trans (side.store_signed c _)
  · rw [heldMargin_concat, ← (holds_heldMargin os).store_add (margins_sign vol user price os o)]
    exact hm
  · rw [totalNotional_concat, hn, side.abs_signed (by linarith), hprice]

theorem placeOrders_concat (os : List (OrderCreate × List Answer)) (o : OrderCreate × List Answer)
    (w : World) : placeOrders cfg c (os ++ [o]) w =
      (placeOrders cfg c os w).bind fun w => (placeOrder cfg c o.1 o.2 w).map Prod.fst := by
  unfold placeOrders
  rw [List.foldlM_append]
  refine congrArg (Option.bind _) (funext fun w₁ => ?_)
  simp only [List.foldlM_cons, List.foldlM_nil]
  exact bind_pure _

/-- All of them. -/
theorem built_orders {orders : List (OrderCreate × List Answer)} {w w' : World}
    (hv : w.db.Valid c) (huser : w.db.selectUser userId = [user])
    (hnone : w.db.livePositionsOf userId symbol = [])
    (ha : ∀ o ∈ orders, Alike userId symbol side vol price o)
    (h : placeOrders cfg c orders w = some w') :
    Built cfg c userId symbol side vol user price (orders.map Prod.fst) w'.db := by
  induction orders using List.reverseRecOn generalizing w' with
  | nil =>
    cases h
    exact built_nil hv huser hnone
  | append_singleton orders o ih =>
    rw [placeOrders_concat] at h
    obtain ⟨w₁, hold, hlast⟩ := Option.bind_eq_some_iff.mp h
    obtain ⟨⟨w₂, r⟩, hplaced, rfl⟩ := Option.map_eq_some_iff.mp hlast
    rw [List.map_append]
    exact built_order (ih (fun x hx => ha x (List.mem_append_left _ hx)) hold)
      (ha o (List.mem_append_right _ List.mem_cons_self)) hplaced

/-- The first order finds its user. -/
theorem user_of_placeOrders {orders : List (OrderCreate × List Answer)} {w w' : World}
    (hne : orders ≠ []) (ha : ∀ o ∈ orders, Alike userId symbol side vol price o)
    (h : placeOrders cfg c orders w = some w') : ∃ user, w.db.selectUser userId = [user] := by
  obtain ⟨o, orders, rfl⟩ := List.exists_cons_of_ne_nil hne
  obtain ⟨w₁, hfirst, -⟩ := Option.bind_eq_some_iff.mp h
  obtain ⟨⟨w₂, r⟩, hplaced, -⟩ := Option.map_eq_some_iff.mp hfirst
  obtain ⟨s, position, i, t, -, hc, -, -⟩ := handle_createOrder (placeOrder_eq hplaced)
  exact ⟨s.user, (ha o List.mem_cons_self).userId_eq ▸ hc.user⟩

end

namespace Sample

/-- The tier of the sample user. -/
def trader : User := ⟨1, "trader_1", "standard", "trader"⟩

/-- Two orders for 9, one after the other. -/
def ordersForNine (price : PyFloat) : List (OrderCreate × List Answer) :=
  [(order "BTCUSDT" .buy 9 0, accepted price 1), (order "BTCUSDT" .buy 9 0, accepted price 2)]

theorem alike_accepted {o : OrderCreate} {price : PyFloat} {n : ℕ} {p : ℚ} (hp : o.price price = p) :
    Alike o.userId o.symbol o.side (fun _ => none) p (o, accepted price n) where
  userId_eq := rfl
  symbol_eq := rfl
  side_eq := rfl
  vol_eq a ha := by
    simp only [accepted, List.mem_cons, List.not_mem_nil, or_false] at ha
    rcases ha with rfl | rfl | rfl | rfl | rfl | rfl | rfl | rfl | rfl | rfl <;> rfl
  price_eq x hx := by
    obtain rfl : x = price := by simpa [prices, accepted] using hx
    exact hp

end Sample

end CryptoExchange
