import CryptoExchange.Ledger.Tables
import CryptoExchange.Risk.Leverage

/-!
# The risk engine

`RiskEngine.evaluate_order` (`app/risk_engine/engine.py`). `Approved` is what an approval says:
the order's margin fits the free balance, and both exposures after it fit their limits.
-/

namespace CryptoExchange

open Lib

/-- Per-tier share of the global threshold. -/
def userExposureFraction : List (String × ℚ) :=
  [("standard", 0.05), ("professional", 0.20), ("institutional", 0.50)]

/-- `(user.tier or "standard").lower()`. -/
def riskTier (cfg : Config) (user : User) : String :=
  cfg.lower (if user.tier = "" then "standard" else user.tier)

/-- `user_exposure_limit`. -/
def userExposureLimit (cfg : Config) (tier : String) : ℚ :=
  cfg.globalExposureThreshold * (userExposureFraction.lookup tier).getD 0.05

/-- A dict with `approved: False`; the keys after `reason` are there from the second check on. -/
structure Rejection where
  reason : String
  requiredMargin : Option PyFloat := none
  leverage : Option ℤ := none
  maxLeverageForTier : Option ℤ := none

/-- A dict with `approved: True`. An infinite margin ratio is `none`. -/
structure Approval where
  requiredMargin : ℚ
  orderNotional : ℚ
  leverage : ℤ
  maxLeverageForTier : ℤ
  liquidationPrice : ℚ
  maintenanceMargin : PyFloat
  maintenanceMarginRate : PyFloat
  marginRatio : Option PyFloat
  userExposureAfter : ℚ
  globalExposureAfter : ℚ

inductive RiskResult where
  | rejected (r : Rejection)
  | approved (a : Approval)

/-- `requested_leverage or max_leverage`, at most `max_leverage`. -/
def orderLeverage (requestedLeverage : Option ℤ) (maxLeverage : ℤ) : ℤ :=
  min (if requestedLeverage.getD 0 = 0 then maxLeverage else requestedLeverage.getD 0) maxLeverage

/-- What `evaluate_order` is given. -/
structure RiskInput where
  account : Account
  user : User
  orderSize : ℚ
  price : ℚ
  side : Side
  requestedLeverage : Option ℤ
  currentUserExposure : ℚ
  currentGlobalExposure : ℚ
  symbol : String

/-- `evaluate_order`; an error is a `ValueError` of the margin functions. -/
def evaluateOrder (cfg : Config) (vol : Volatility) (i : RiskInput) : Except String RiskResult :=
  if i.orderSize ≤ 0 then .ok (.rejected { reason := "Order size must be positive" })
  else
    let orderNotional := i.orderSize * i.price
    let tier := riskTier cfg i.user
    let maxLeverage := getMaxLeverage cfg vol tier orderNotional i.symbol
    let leverage := orderLeverage i.requestedLeverage maxLeverage
    match requiredMargin i.orderSize i.price leverage with
    | .error e => .error e
    | .ok marginNeeded =>
      let availableBalance := i.account.balance - i.account.marginUsed
      let rejected (reason : String) : Except String RiskResult :=
        .ok (.rejected ⟨reason, cfg.float marginNeeded, leverage, maxLeverage⟩)
      if availableBalance < marginNeeded then rejected "Insufficient balance for required margin"
      else if i.currentGlobalExposure + orderNotional > cfg.globalExposureThreshold then
        rejected "Global exposure threshold exceeded"
      else if i.currentUserExposure + orderNotional > userExposureLimit cfg tier then
        rejected ("User exposure limit exceeded for tier '" ++ tier ++ "' (limit: " ++
          cfg.amount (cfg.float (userExposureLimit cfg tier)) ++ " USDT)")
      else
        let mmr := maintenanceMarginRate leverage
        let maintMargin := orderNotional * mmr
        match liquidationPrice i.price leverage (i.side = .buy) mmr with
        | .error e => .error e
        | .ok liqPrice =>
          .ok (.approved
            { requiredMargin := marginNeeded
              orderNotional
              leverage
              maxLeverageForTier := maxLeverage
              liquidationPrice := liqPrice
              maintenanceMargin := cfg.float maintMargin
              maintenanceMarginRate := cfg.float mmr
              marginRatio := (marginRatio maintMargin availableBalance 0).map cfg.float
              userExposureAfter := i.currentUserExposure + orderNotional
              globalExposureAfter := i.currentGlobalExposure + orderNotional })

/-- The leverage of an approved order. -/
def RiskInput.leverage (cfg : Config) (vol : Volatility) (i : RiskInput) : ℤ :=
  orderLeverage i.requestedLeverage
    (getMaxLeverage cfg vol (riskTier cfg i.user) (i.orderSize * i.price) i.symbol)

/-- What an approval of `i` says. -/
structure Approved (cfg : Config) (vol : Volatility) (i : RiskInput) (a : Approval) : Prop where
  size_pos : 0 < i.orderSize
  leverage : a.leverage = i.leverage cfg vol
  leverage_pos : 1 ≤ a.leverage
  requiredMargin : a.requiredMargin = i.orderSize * i.price / a.leverage
  orderNotional : a.orderNotional = i.orderSize * i.price
  margin_le : i.account.marginUsed + a.requiredMargin ≤ i.account.balance
  userExposureAfter : a.userExposureAfter = i.currentUserExposure + i.orderSize * i.price
  globalExposureAfter : a.globalExposureAfter = i.currentGlobalExposure + i.orderSize * i.price
  global_le : a.globalExposureAfter ≤ cfg.globalExposureThreshold
  user_le : a.userExposureAfter ≤ userExposureLimit cfg (riskTier cfg i.user)

theorem requiredMargin_ok {size price m : ℚ} {leverage : ℤ}
    (h : requiredMargin size price leverage = .ok m) :
    1 ≤ leverage ∧ m = size * price / leverage := by
  unfold requiredMargin at h
  split at h
  · cases h
  · cases h; exact ⟨by omega, rfl⟩

/-- An approval passed every check. -/
theorem evaluateOrder_approved {cfg : Config} {vol : Volatility} {i : RiskInput} {a : Approval}
    (h : evaluateOrder cfg vol i = .ok (.approved a)) : Approved cfg vol i a := by
  unfold evaluateOrder at h
  split at h
  · cases h
  rename_i hsize
  dsimp only at h
  split at h
  · cases h
  rename_i m hm
  obtain ⟨hlev, hm⟩ := requiredMargin_ok hm
  split at h
  · cases h
  rename_i havail
  split at h
  · cases h
  rename_i hglobal
  split at h
  · cases h
  rename_i huser
  split at h
  · cases h
  cases h
  exact ⟨not_le.mp hsize, rfl, hlev, hm, rfl, by linarith [not_lt.mp havail], rfl, rfl,
    not_lt.mp hglobal, not_lt.mp huser⟩

theorem Approved.requiredMargin_pos {cfg : Config} {vol : Volatility} {i : RiskInput}
    {a : Approval} (h : Approved cfg vol i a) (hp : 0 < i.price) : 0 < a.requiredMargin := by
  have hl : (0 : ℚ) < a.leverage := by exact_mod_cast h.leverage_pos
  rw [h.requiredMargin]
  exact div_pos (mul_pos h.size_pos hp) hl

end CryptoExchange
