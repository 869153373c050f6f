import CryptoExchange.Risk.Approval

/-!
# Approved orders and their liquidation price

The rate table of `margin.py` was written apart from the brackets of `leverage.py`. What ties them:

* `getMaxLeverage_le`: no tier, bracket or volatility allows more than the highest tier cap.
* `maintenanceMarginRate_mul_lt`: up to that leverage the maintenance margin is less than the margin
  that an order has to bring.
* `Figures`: the liquidation price, the maintenance margin and the margin ratio of an approval.
* `approved_not_liquidatable`: what follows for every order that is approved.
-/

namespace CryptoExchange

open Lib

/-! ## The highest leverage -/

/-- The highest cap of `tierCaps`. -/
def highestCap : ℤ := 50

theorem tierCap_le (key : String) (maxLeverage : ℤ) :
    min ((tierCaps.lookup key).getD 10) (max 1 maxLeverage) ≤ highestCap := by
  refine (min_le_left _ _).trans ?_
  cases h : tierCaps.lookup key with
  | none => decide
  | some cap =>
    obtain ⟨tier, hmem⟩ := lookup_mem h
    exact (by decide : ∀ e ∈ tierCaps, e.2 ≤ highestCap) _ hmem

theorem baseLeverage_le_cap {tierKey : String} {tierCap : ℤ} (hc : 1 ≤ tierCap) (notional : ℚ)
    (bs : List (WithTop ℚ × List (String × ℤ))) :
    baseLeverage tierKey tierCap notional bs ≤ tierCap := by
  induction bs with
  | nil => exact hc
  | cons b bs ih =>
    obtain ⟨ceiling, tierMap⟩ := b
    rw [baseLeverage]
    split
    · exact min_le_right _ _
    · exact ih

theorem getModifier_le_one (cfg : Config) (vol : Volatility) (symbol : String) :
    getModifier cfg vol symbol ≤ 1 :=
  bandModifier_le (by simp [volatilityBands]; norm_num) (by norm_num)

theorem getModifier_nonneg (cfg : Config) (vol : Volatility) (symbol : String) :
    0 ≤ getModifier cfg vol symbol :=
  bandModifier_nonneg _ (by simp [volatilityBands]; norm_num)

theorem truncate_intCast (n : ℤ) : truncate n = n := by
  unfold truncate
  split
  · exact Int.floor_intCast n
  · exact Int.ceil_intCast n

/-- The volatility only ever lowers the ceiling. -/
theorem truncate_modifier_le (cfg : Config) (vol : Volatility) (symbol : String) {l : ℤ}
    (hl : 1 ≤ l) : truncate (l * getModifier cfg vol symbol) ≤ l := by
  have h0 : (0 : ℚ) ≤ l := by exact_mod_cast (by omega : (0 : ℤ) ≤ l)
  calc truncate (l * getModifier cfg vol symbol)
      ≤ truncate (l : ℚ) := truncate_mono (mul_nonneg h0 (getModifier_nonneg cfg vol symbol))
        (mul_le_of_le_one_right h0 (getModifier_le_one cfg vol symbol))
    _ = l := truncate_intCast l

theorem getMaxLeverage_le (cfg : Config) (vol : Volatility) (tier : String) (notional : ℚ)
    (symbol : String) : getMaxLeverage cfg vol tier notional symbol ≤ highestCap := by
  unfold getMaxLeverage
  dsimp only
  generalize (if (tierCaps.lookup (cfg.lower tier)).isSome then cfg.lower tier else "standard") = key
  have hcap := tierCap_pos key cfg.maxLeverage
  have hpos : 1 ≤ baseLeverage key _ notional leverageBrackets :=
    baseLeverage_pos hcap _ (by decide)
  have hbase : baseLeverage key _ notional leverageBrackets ≤ highestCap :=
    (baseLeverage_le_cap hcap _ _).trans (tierCap_le key _)
  split
  · exact max_le (by decide) ((truncate_modifier_le cfg vol symbol hpos).trans hbase)
  · exact hbase

/-! ## The maintenance margin -/

theorem mmrOf_pos (leverage : ℤ) {rows : List (ℤ × ℚ)} (hr : ∀ r ∈ rows, 0 < r.2) :
    0 < mmrOf leverage rows := by
  induction rows with
  | nil => norm_num [mmrOf]
  | cons r rows ih =>
    obtain ⟨maxLev, rate⟩ := r
    rw [mmrOf]
    split
    · exact hr _ List.mem_cons_self
    · exact ih fun r' hr' => hr r' (List.mem_cons_of_mem _ hr')

theorem maintenanceMarginRate_pos (leverage : ℤ) : 0 < maintenanceMarginRate leverage :=
  mmrOf_pos leverage (by decide +kernel)

/-- A table whose rows stay below 1 at the highest leverage that they are for. -/
theorem mmrOf_mul_lt {leverage cap : ℤ} (h : leverage ≤ cap) {rows : List (ℤ × ℚ)}
    (hr : ∀ r ∈ rows, 0 < r.2 ∧ r.2 * (min r.1 cap : ℤ) < 1) (hd : (0.0010 : ℚ) * cap < 1) :
    mmrOf leverage rows * leverage < 1 := by
  induction rows with
  | nil =>
    have hc : (leverage : ℚ) ≤ cap := by exact_mod_cast h
    rw [mmrOf]
    linarith
  | cons r rows ih =>
    obtain ⟨maxLev, rate⟩ := r
    obtain ⟨hpos, hlt⟩ := hr _ List.mem_cons_self
    rw [mmrOf]
    split
    · rename_i hle
      have hc : (leverage : ℚ) ≤ (min maxLev cap : ℤ) := by exact_mod_cast le_min hle h
      exact (mul_le_mul_of_nonneg_left hc hpos.le).trans_lt hlt
    · exact ih fun r' hr' => hr r' (List.mem_cons_of_mem _ hr')

theorem maintenanceMarginRate_mul_lt {leverage : ℤ} (h : leverage ≤ highestCap) :
    maintenanceMarginRate leverage * leverage < 1 :=
  mmrOf_mul_lt h (by decide +kernel) (by norm_num [highestCap])

/-! ## The figures of an approval -/

section

variable {cfg : Config} {vol : Volatility} {i : RiskInput} {a : Approval}

/-- The maintenance margin of an approved order, which the approval has as a float. -/
def Approval.maintMargin (a : Approval) : ℚ :=
  a.orderNotional * CryptoExchange.maintenanceMarginRate a.leverage

/-- The figures that come with an approval. -/
structure Figures (cfg : Config) (i : RiskInput) (a : Approval) : Prop where
  liquidationPrice : CryptoExchange.liquidationPrice i.price a.leverage (i.side = .buy)
    (CryptoExchange.maintenanceMarginRate a.leverage) = .ok a.liquidationPrice
  maintenanceMargin : a.maintenanceMargin = cfg.float a.maintMargin
  maintenanceMarginRate :
    a.maintenanceMarginRate = cfg.float (CryptoExchange.maintenanceMarginRate a.leverage)
  marginRatio : a.marginRatio =
    (CryptoExchange.marginRatio a.maintMargin (i.account.balance - i.account.marginUsed) 0).map
      cfg.float

theorem evaluateOrder_figures (h : evaluateOrder cfg vol i = .ok (.approved a)) :
    Figures cfg i a := by
  unfold evaluateOrder at h
  split at h
  · cases h
  dsimp only at h
  split at h
  · cases h
  split at h
  · cases h
  split at h
  · cases h
  split at h
  · cases h
  split at h
  · cases h
  rename_i hliq
  cases h
  exact ⟨hliq, rfl, rfl, rfl⟩

/-- A buy is liquidated below its price and a sell above it, by the same distance. -/
theorem liquidationPrice_ok {price liq mmr : ℚ} {leverage : ℤ} {long : Bool}
    (h : liquidationPrice price leverage long mmr = .ok liq) :
    liq = if long then price - price * (1 / leverage - mmr)
      else price + price * (1 / leverage - mmr) := by
  unfold liquidationPrice at h
  split at h
  · cases h
  split at h <;> cases h
  · rw [if_pos ‹_›]; ring
  · rw [if_neg ‹_›]; ring

/-- An approval does not go above the leverage that was asked for. -/
theorem RiskInput.leverage_le_requested (hl : ∀ l ∈ i.requestedLeverage, 1 ≤ l) :
    ∀ l ∈ i.requestedLeverage, i.leverage cfg vol ≤ l := by
  intro l h
  have h1 := hl l h
  rw [Option.mem_def] at h
  rw [RiskInput.leverage, h, orderLeverage_some h1]
  exact min_le_left _ _

theorem Approved.leverage_le_cap (h : Approved cfg vol i a) : a.leverage ≤ highestCap := by
  rw [h.leverage]
  exact (orderLeverage_le _ _).trans (getMaxLeverage_le _ _ _ _ _)

theorem Approved.requiredMargin_mul (h : Approved cfg vol i a) :
    a.requiredMargin * a.leverage = a.orderNotional := by
  have hl : (a.leverage : ℚ) ≠ 0 := by
    exact_mod_cast (by have := h.leverage_pos; omega : a.leverage ≠ 0)
  rw [h.requiredMargin, h.orderNotional, div_mul_cancel₀ _ hl]

/-- The maintenance rate leaves something of the inverse of the leverage, and not all of the price. -/
theorem Approved.rate_lt (h : Approved cfg vol i a) :
    maintenanceMarginRate a.leverage < 1 / a.leverage ∧ (1 : ℚ) / a.leverage ≤ 1 := by
  have hl : (1 : ℚ) ≤ a.leverage := by exact_mod_cast h.leverage_pos
  refine ⟨?_, ?_⟩
  · rw [lt_div_iff₀ (by linarith)]
    exact maintenanceMarginRate_mul_lt h.leverage_le_cap
  · exact (div_le_one (by linarith)).mpr hl

theorem Approved.maintMargin_eq (h : Approved cfg vol i a) :
    a.requiredMargin - a.maintMargin =
      i.orderSize * (i.price * (1 / a.leverage - maintenanceMarginRate a.leverage)) := by
  rw [Approval.maintMargin, h.requiredMargin, h.orderNotional]
  ring

/-- The distance from the order's price to its liquidation price. -/
theorem Approved.distance_pos (h : Approved cfg vol i a) (hp : 0 < i.price) :
    0 < i.price * (1 / a.leverage - maintenanceMarginRate a.leverage) ∧
      i.price * (1 / a.leverage - maintenanceMarginRate a.leverage) < i.price := by
  obtain ⟨hlt, hle⟩ := h.rate_lt
  have hpos := maintenanceMarginRate_pos a.leverage
  exact ⟨mul_pos hp (by linarith), mul_lt_of_lt_one_right hp (by linarith)⟩

theorem Approved.maintMargin_lt (h : Approved cfg vol i a) (hp : 0 < i.price) :
    a.maintMargin < a.requiredMargin := by
  have heq := h.maintMargin_eq
  have := mul_pos h.size_pos (h.distance_pos hp).1
  linarith

/-- The maintenance margin is below the free balance, since the required margin fits it. -/
theorem Approved.marginRatio_lt_one (h : Approved cfg vol i a) (hp : 0 < i.price) :
    ∃ r : ℚ, marginRatio a.maintMargin (i.account.balance - i.account.marginUsed) 0 = ↑r ∧
      r < 1 := by
  have hfree : a.maintMargin < i.account.balance - i.account.marginUsed + 0 := by
    linarith [h.maintMargin_lt hp, h.margin_le]
  have hm := h.requiredMargin_pos hp
  have hdenom : 0 < i.account.balance - i.account.marginUsed + 0 := by linarith [h.margin_le]
  refine ⟨_, ?_, (div_lt_one hdenom).mpr hfree⟩
  rw [marginRatio]
  exact if_neg (not_le.mpr hdenom)

/-- **No approved order is born liquidatable.** Its leverage is between 1 and what was asked for;
margin times leverage is the notional; the loss at the liquidation price is the margin above the
maintenance margin, and positive; and the margin ratio is finite and below 1. The approval has the
maintenance margin and the ratio as floats of the exact values. -/
theorem approved_not_liquidatable (h : evaluateOrder cfg vol i = .ok (.approved a))
    (hp : 0 < i.price) (hl : ∀ l ∈ i.requestedLeverage, 1 ≤ l) :
    1 ≤ a.leverage ∧ (∀ l ∈ i.requestedLeverage, a.leverage ≤ l) ∧
    a.requiredMargin * a.leverage = a.orderNotional ∧
    a.maintenanceMargin = cfg.float a.maintMargin ∧
    i.orderSize * |i.price - a.liquidationPrice| = a.requiredMargin - a.maintMargin ∧
    0 < a.requiredMargin - a.maintMargin ∧
    (i.side = .buy → 0 < a.liquidationPrice ∧ a.liquidationPrice < i.price) ∧
    (i.side = .sell → i.price < a.liquidationPrice ∧ a.liquidationPrice < 2 * i.price) ∧
    ∃ r : ℚ, marginRatio a.maintMargin (i.account.balance - i.account.marginUsed) 0 = ↑r ∧
      a.marginRatio = some (cfg.float r) ∧ r < 1 := by
  have ha := evaluateOrder_approved h
  have hf := evaluateOrder_figures h
  have hliq := liquidationPrice_ok hf.liquidationPrice
  obtain ⟨hpos, hlt⟩ := ha.distance_pos hp
  obtain ⟨r, hr, hr1⟩ := ha.marginRatio_lt_one hp
  have hratio : a.marginRatio = some (cfg.float r) := by rw [hf.marginRatio, hr]; rfl
  refine ⟨ha.leverage_pos, ?_, ha.requiredMargin_mul, hf.maintenanceMargin, ?_,
    sub_pos.mpr (ha.maintMargin_lt hp), ?_, ?_, r, hr, hratio, hr1⟩
  · rw [ha.leverage]
    exact RiskInput.leverage_le_requested hl
  · rw [ha.maintMargin_eq, hliq]
    generalize i.price * (1 / a.leverage - maintenanceMarginRate a.leverage) = d at *
    cases i.side
    · rw [if_pos (by decide), sub_sub_cancel, abs_of_pos hpos]
    · rw [if_neg (by decide), sub_add_cancel_left, abs_neg, abs_of_pos hpos]
  · intro hside
    rw [hliq, hside, if_pos (by decide)]
    exact ⟨by linarith, by linarith⟩
  · intro hside
    rw [hliq, hside, if_neg (by decide)]
    exact ⟨by linarith, by linarith⟩

end

/-! ## A sell at 5 -/

namespace Sample

/-- 1 BTC sold at 10000 with a leverage of 5 asked for. -/
def btcSell : RiskInput :=
  { btcInput "standard" 10000 with
    account := ⟨1, 1, 2000, 0⟩
    side := .sell
    requestedLeverage := some 5 }

theorem btcSell_passes : Passes config (fun _ => none) btcSell := by
  refine ⟨?_, ?_, ?_, ?_, ?_⟩ <;> decide +kernel

end Sample

open Sample in
/-- A sell of 1 BTC at 10000 with leverage 5 is approved, and its liquidation price is above. -/
theorem approved_not_liquidatable_sell :
    ∃ a, evaluateOrder config (fun _ => none) btcSell = .ok (.approved a) ∧
      10000 < a.liquidationPrice := by
  obtain ⟨a, h⟩ := evaluateOrder_approves btcSell_passes
  obtain ⟨-, -, -, -, -, -, -, hsell, -⟩ := approved_not_liquidatable h (by decide +kernel)
    (by decide +kernel)
  exact ⟨a, h, (hsell rfl).1⟩

end CryptoExchange
