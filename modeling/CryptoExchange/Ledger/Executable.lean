import CryptoExchange.Ledger.Cancel
import CryptoExchange.Risk.Liquidation

/-!
# Orders that execute at once

`create_order` measures a limit order at its limit price. A buy limit at or above the market is
measured at or above what it will cost; a sell limit below the market is measured below.

* `Passes.of_price_le`: what passes at a price passes at every lower one.
* `Executable`: the market order, the buy limit at or above the market and the sell limit at or
  below it.
* `executable_passes`: what is approved passes at the market price, unless it is a sell limit below
  it. `sell_limit_under_market` is one that does not.
-/

namespace CryptoExchange

open Lib Db

variable {cfg : Config} {c : Column}

/-! ## Lower prices -/

/-- A lower price has a smaller notional, no lower ceiling and so no larger margin. -/
theorem Passes.of_price_le {vol : Volatility} {i : RiskInput} (h : Passes cfg vol i)
    (hl : ∀ l ∈ i.requestedLeverage, 1 ≤ l) (hp : 0 < i.price) {p : ℚ} (hle : p ≤ i.price) :
    Passes cfg vol { i with price := p } := by
  let j : RiskInput := { i with price := p }
  have hn : j.orderSize * j.price ≤ i.orderSize * i.price :=
    mul_le_mul_of_nonneg_left hle h.size_pos.le
  have hlev : i.leverage cfg vol ≤ j.leverage cfg vol :=
    orderLeverage_mono (getMaxLeverage_anti cfg vol (riskTier cfg i.user) hn i.symbol)
      fun l hm => ⟨l, hm, hl l hm, le_rfl⟩
  have hl1 : (1 : ℚ) ≤ i.leverage cfg vol := by exact_mod_cast h.leverage_pos
  have hl2 : (i.leverage cfg vol : ℚ) ≤ j.leverage cfg vol := by exact_mod_cast hlev
  have hpos : 0 ≤ i.orderSize * i.price := mul_nonneg h.size_pos.le hp.le
  have hmargin : j.orderSize * j.price / j.leverage cfg vol ≤
      i.orderSize * i.price / i.leverage cfg vol :=
    div_le_div₀ hpos hn (by linarith) hl2
  exact ⟨h.size_pos, h.leverage_pos.trans hlev, hmargin.trans h.margin,
    (add_le_add_right hn _).trans h.globalExposure, (add_le_add_right hn _).trans h.userExposure⟩

/-! ## Orders at the market -/

/-- The order executes at once at the market price `x`. -/
inductive Executable (o : OrderCreate) (x : ℚ) : Prop
  | market : o.orderType = .market → Executable o x
  | buy {l : PyFloat} : o.orderType = .limit → o.limitPrice = some l → o.side = .buy →
      x ≤ l.value → Executable o x
  | sell {l : PyFloat} : o.orderType = .limit → o.limitPrice = some l → o.side = .sell →
      l.value ≤ x → Executable o x

/-- A sell limit below the market price `x`. -/
def UnderMarket (o : OrderCreate) (x : ℚ) : Prop :=
  o.orderType = .limit ∧ o.side = .sell ∧ ∃ l ∈ o.limitPrice, l.value < x

namespace CreateOrder

/-- What the risk check was given, at another price. -/
def Checked.inputAt (s : Checked cfg) (price : ℚ) : RiskInput :=
  { s.toLoaded.riskInput s.current s.userExposure s.globalExposure with price }

/-- An approved order passes at the price that it was measured at. -/
theorem Checked.passes (s : Checked cfg) : Passes cfg s.vol (s.inputAt s.price) :=
  s.approved.passes

theorem Checked.passes_of_le (s : Checked cfg) {p : ℚ} (hp : 0 < s.price) (hle : p ≤ s.price) :
    Passes cfg s.vol (s.inputAt p) :=
  s.passes.of_price_le s.payload.leverage_ge hp hle

theorem Checked.price_limit (s : Checked cfg) {l : PyFloat} (ht : s.payload.orderType = .limit)
    (hl : s.payload.limitPrice = some l) : s.price = l.value := by
  simp [Checked.price, OrderCreate.price, ht, hl]

theorem Checked.price_market (s : Checked cfg) (ht : s.payload.orderType = .market) :
    s.price = s.current.value := by
  simp [Checked.price, OrderCreate.price, ht]

end CreateOrder

/-- **Risk at the market.** Every order that executes at once and was approved, in whichever state of
the ledger, passes the margin and both exposure checks with the market price, too, unless it is a
sell limit below it; that one passes them with its limit price. An accepted `create_order` was
approved with what the ledger held. -/
theorem executable_passes (cfg : Config) (c : Column) :
    (∀ s : CreateOrder.Checked cfg, Executable s.payload s.current.value →
      (¬UnderMarket s.payload s.current.value → Passes cfg s.vol (s.inputAt s.current.value)) ∧
      ∀ l ∈ s.payload.limitPrice, UnderMarket s.payload s.current.value →
        Passes cfg s.vol (s.inputAt l.value)) ∧
    ∀ w payload as w' r, placeOrder cfg c payload as w = some (w', r) →
      ∃ s : CreateOrder.Checked cfg, s.Current w.db payload (· ∈ as) := by
  refine ⟨fun s hx => ⟨fun hunder => ?_, fun l hl hunder => ?_⟩, fun w payload as w' r h => ?_⟩
  · cases hx with
    | market ht => exact s.price_market ht ▸ s.passes
    | @buy l ht hl _ hle =>
      have hp := s.price_limit ht hl
      exact s.passes_of_le (hp ▸ s.payload.limitPrice_pos l hl) (hp ▸ hle)
    | @sell l ht hl hside hle =>
      have hp := s.price_limit ht hl
      have heq : s.current.value = l.value :=
        le_antisymm (not_lt.mp fun hlt => hunder ⟨ht, hside, l, hl, hlt⟩) hle
      rw [heq, ← hp]
      exact s.passes
  · rw [← s.price_limit hunder.1 hl]
    exact s.passes
  · obtain ⟨s, _, _, _, _, hc, -, -⟩ := handle_createOrder (placeOrder_eq h)
    exact ⟨s.toChecked, hc.checked⟩

/-! ## A sell far below the market -/

namespace Sample

/-- 1 BTC for sale at 1. -/
def cheapSell : OrderCreate :=
  { order "BTCUSDT" .sell 1 0 with
    orderType := .limit
    limitPrice := some (dec 1 0)
    limitPrice_pos := fun p hp => by cases hp; exact dec_pos 1 0
    limitPrice_given := by simp }

theorem cheapSell_placed :
    (placeOrder config (.numeric 8) cheapSell (accepted (dec 1 2) 1) (start 1)).isSome := by
  decide +kernel

end Sample

open Sample in
/-- The result for that order. -/
theorem executable_passes_cheap :
    ∃ s : CreateOrder.Checked config, s.payload = cheapSell ∧ Passes config s.vol (s.inputAt 1) := by
  obtain ⟨⟨w', r⟩, h⟩ := Option.isSome_iff_exists.mp cheapSell_placed
  obtain ⟨s, hs⟩ := (executable_passes config (.numeric 8)).2 _ _ _ w' r h
  have hx : s.current.value = 100 := by
    obtain ⟨a, ha, hp⟩ := hs.market
    have hmem : s.current ∈ prices (accepted (dec 1 2) 1) := List.mem_filterMap.mpr ⟨a, ha, hp⟩
    rw [show s.current = dec 1 2 by simpa [prices, accepted] using hmem]
    decide +kernel
  have hl : (dec 1 0).value = 1 := by decide +kernel
  have e : s.payload = cheapSell := hs.payload_eq
  have hlimit : s.payload.limitPrice = some (dec 1 0) := by rw [e]; rfl
  have hunder : UnderMarket s.payload s.current.value := by
    rw [e]
    exact ⟨rfl, rfl, dec 1 0, rfl, by rw [hl, hx]; norm_num⟩
  have hexec : Executable s.payload s.current.value := by
    rw [e]
    exact .sell rfl rfl rfl (by rw [hl, hx]; norm_num)
  exact ⟨s, e, hl ▸ ((executable_passes config (.numeric 8)).1 s hexec).2 _ hlimit hunder⟩

open Sample in
/-- 1 BTC for sale at 1 while the market is at 100 is accepted with a balance of 1, and the same
market order is not: it needs a margin of 10. -/
theorem sell_limit_under_market :
    ∃ w' r, placeOrder config (.numeric 8) cheapSell (accepted (dec 1 2) 1) (start 1) =
        some (w', r) ∧
      Executable cheapSell (dec 1 2).value ∧
      placeOrder config (.numeric 8) (order "BTCUSDT" .sell 1 0) (accepted (dec 1 2) 1) (start 1) =
        none ∧
      ∀ s : CreateOrder.Checked config,
        s.Current (start 1).db cheapSell (· ∈ accepted (dec 1 2) 1) →
          ¬Passes config s.vol (s.inputAt (dec 1 2).value) := by
  obtain ⟨⟨w', r⟩, h⟩ := Option.isSome_iff_exists.mp cheapSell_placed
  have hrejected : (placeOrder config (.numeric 8) (order "BTCUSDT" .sell 1 0)
      (accepted (dec 1 2) 1) (start 1)).isNone := by decide +kernel
  refine ⟨w', r, h, .sell (l := dec 1 0) rfl rfl rfl (by decide +kernel),
    Option.isNone_iff_eq_none.mp hrejected, fun s hs hpasses => ?_⟩
  have hm := hpasses.margin
  have hcap : (s.inputAt (dec 1 2).value).leverage config s.vol ≤ highestCap :=
    (orderLeverage_le _ _).trans (getMaxLeverage_le _ _ _ _ _)
  have hcap : ((s.inputAt (dec 1 2).value).leverage config s.vol : ℚ) ≤ 50 := by exact_mod_cast hcap
  have hpos : (0 : ℚ) < (s.inputAt (dec 1 2).value).leverage config s.vol := by
    exact_mod_cast hpasses.leverage_pos
  -- the order's notional is 100, and the account's free balance 1
  have hnotional : (s.inputAt (dec 1 2).value).orderSize * (s.inputAt (dec 1 2).value).price = 100 := by
    show s.payload.size.value * (dec 1 2).value = 100
    rw [hs.payload_eq]
    decide +kernel
  have haccount : s.opened.account = ⟨1, 1, 1, 0⟩ := by
    have := hs.opened
    unfold OpenAccount.Current at this
    split at this
    · exact absurd this.1 (by decide +kernel)
    · exact (List.singleton_inj.mp this).symm
  have hfree : (s.inputAt (dec 1 2).value).account.balance -
      (s.inputAt (dec 1 2).value).account.marginUsed = 1 := by
    show s.opened.account.balance - s.opened.account.marginUsed = 1
    rw [haccount]
    norm_num
  rw [hnotional, hfree, div_le_iff₀ hpos] at hm
  linarith

end CryptoExchange
